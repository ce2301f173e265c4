import MuduoZ.AsyncLogging

/-!
What the log file gets of the messages that were appended.

`AsyncLogging::append` lets a message into the current buffer when it has at most the length of
the room there, `FixedBuffer::append` takes it only when it is shorter. A message of just that
length is dropped.
-/

namespace MuduoZ.LogDelivery

open AsyncLogging Runs

/-- A message, with the room in the current buffer when it was appended. -/
structure Entry where
  msg : Str
  room : ℤ

def Entry.Lost (e : Entry) : Prop := AsyncLogging.Lost e.msg e.room

instance (e : Entry) : Decidable e.Lost := inferInstanceAs (Decidable (_ ∧ _))

/-- The log, where the back end is, all that was appended, and how much of it had been when the
last critical section was entered. -/
structure Sys where
  log : AsyncLogging
  inRound : Bool
  appended : List Entry
  taken : ℕ

inductive Action
  | append (msg : Message)
  | round

def start : Sys := ⟨.new, false, [], 0⟩

/-- A call of `append`, or the next step of the back end. -/
def step (s : Sys) : Action → Result Sys
  | .append msg => do
    let current ← deref s.log.bufferCurrent_
    let log ← s.log.append msg.val
    .ok { s with log := log, appended := s.appended ++ [⟨msg.val, current.getRemainLen⟩] }
  | .round =>
    if s.inRound then do
      .ok { s with log := ← s.log.writeOut, inRound := false }
    else do
      .ok { s with log := ← s.log.collect, inRound := true, taken := s.appended.length }

/-- A message is no longer than the logger makes it, and a round finds at most 25 buffers. -/
def Fair (s : Sys) : Action → Prop
  | .append msg => msg.val.length ≤ smallBufferSize
  | .round => s.inRound = false → s.log.bufferVector_.length + 1 ≤ 25

def join (es : List Entry) : Str := (es.map Entry.msg).flatten

/-- The file has all that was appended before the last critical section: every message once,
whole and in order. -/
def Delivered (s : Sys) : Prop := s.log.output.flatten = join (s.appended.take s.taken)

/-! ### What is dropped -/

/-- The messages without those that are dropped. -/
def kept (es : List Entry) : Str := es.flatMap fun e => if e.Lost then [] else e.msg

@[simp] lemma kept_append (es fs : List Entry) : kept (es ++ fs) = kept es ++ kept fs :=
  List.flatMap_append

lemma length_kept_le (es : List Entry) : (kept es).length ≤ (join es).length := by
  induction es with
  | nil => exact le_rfl
  | cons e es ih =>
    simp only [kept, join, List.flatMap_cons, List.map_cons, List.flatten_cons,
      List.length_append] at ih ⊢
    split_ifs
    · simp only [List.length_nil]; omega
    · omega

lemma kept_eq_iff (es : List Entry) : kept es = join es ↔ ∀ e ∈ es, ¬ e.Lost := by
  induction es with
  | nil => simp [kept, join]
  | cons e es ih =>
    have hk : kept (e :: es) = (if e.Lost then [] else e.msg) ++ kept es := rfl
    have hj : join (e :: es) = e.msg ++ join es := rfl
    rw [hk, hj, List.forall_mem_cons]
    by_cases hl : e.Lost
    · rw [if_pos hl, List.nil_append]
      refine ⟨fun heq => ?_, fun h => absurd hl h.1⟩
      have hlen := congrArg List.length heq
      have hle := length_kept_le es
      have hpos := List.length_pos_iff.mpr hl.1
      rw [List.length_append] at hlen
      omega
    · rw [if_neg hl, List.append_cancel_left_eq, ih]
      exact ⟨fun h => ⟨hl, h⟩, fun h => h.2⟩

/-! ### The run -/

/-- The file, the buffers of the round and the front end hold what was not dropped, in order. -/
structure Inv (s : Sys) : Prop where
  sound : s.log.Sound s.inRound
  taken_le : s.taken ≤ s.appended.length
  file : s.log.output.flatten ++ contents s.log.bufferBackVec = kept (s.appended.take s.taken)
  front : s.log.front = kept (s.appended.drop s.taken)
  few : s.inRound = true → s.log.bufferBackVec.length ≤ 25

lemma start_inv : Inv start :=
  ⟨new_sound, le_rfl, rfl, rfl, by simp [start]⟩

lemma step_inv (s : Sys) (a : Action) (s' : Sys) (hs : Inv s) (ha : Fair s a)
    (h : step s a = .ok s') : Inv s' := by
  obtain ⟨hsound, hle, hfile, hfront, hfew⟩ := hs
  cases a with
  | append msg =>
    obtain ⟨msg, hmsg⟩ := msg
    obtain ⟨current, a', hcur, happ, hsound', hback, hout, hspec⟩ := append_spec hsound hmsg
    obtain ⟨hlost, hkept⟩ := hspec ha
    simp only [step, hcur, deref, happ, bind, Except.bind] at h
    obtain rfl := Except.ok.inj h
    have hdrop : (s.appended ++ [(⟨msg, current.getRemainLen⟩ : Entry)]).drop s.taken =
        s.appended.drop s.taken ++ [⟨msg, current.getRemainLen⟩] :=
      List.drop_append_of_le_length hle
    refine ⟨hsound', by simp; omega, ?_, ?_, by rwa [hback]⟩
    · simp only [hout, hback, hfile, List.take_append_of_le_length hle]
    · simp only [hdrop, kept_append, ← hfront]
      by_cases hl : AsyncLogging.Lost msg current.getRemainLen
      · rw [hlost hl]; simp [kept, Entry.Lost, hl]
      · rw [hkept hl]; simp [kept, Entry.Lost, hl]
  | round =>
    cases hr : s.inRound with
    | true =>
      rw [hr] at hsound
      obtain ⟨a', hw, hsound', hfront', hout⟩ := writeOut_spec hsound
      simp only [step, hr, if_true, hw, bind, Except.bind] at h
      obtain rfl := Except.ok.inj h
      exact ⟨hsound', hle, (hout (hfew hr)).trans hfile, hfront'.trans hfront, (by cases ·)⟩
    | false =>
      rw [hr] at hsound
      obtain ⟨a', hc, hsound', hfront', hout, hlen⟩ := collect_spec hsound
      simp only [step, hr, hc, bind, Except.bind] at h
      obtain rfl := Except.ok.inj h
      refine ⟨hsound', le_rfl, ?_, by simp [hfront', kept], fun _ => ?_⟩
      · dsimp only
        rw [hout, hfile, hfront, ← kept_append, List.take_append_drop, List.take_length]
      · rw [hlen]; exact ha hr

lemma step_total (s : Sys) (a : Action) (hs : s.log.Sound s.inRound) :
    ∃ s', step s a = .ok s' ∧ s'.log.Sound s'.inRound := by
  cases a with
  | append msg =>
    obtain ⟨current, a', hcur, happ, hsound, -⟩ := append_spec hs msg.2
    refine ⟨⟨a', s.inRound, s.appended ++ [⟨msg.1, current.getRemainLen⟩], s.taken⟩, ?_, hsound⟩
    simp [step, hcur, deref, happ]
  | round =>
    cases hr : s.inRound with
    | true =>
      rw [hr] at hs
      obtain ⟨a', hw, hsound, -⟩ := writeOut_spec hs
      exact ⟨⟨a', false, s.appended, s.taken⟩, by simp [step, hr, hw], hsound⟩
    | false =>
      rw [hr] at hs
      obtain ⟨a', hc, hsound, -⟩ := collect_spec hs
      exact ⟨⟨a', true, s.appended, s.appended.length⟩, by simp [step, hr, hc], hsound⟩

lemma Inv.delivered_iff {s : Sys} (h : Inv s) (hr : s.inRound = false) :
    Delivered s ↔ ∀ e ∈ s.appended.take s.taken, ¬ e.Lost := by
  have hempty : contents s.log.bufferBackVec = [] := by
    rw [(h.sound.idle hr).2.2]; rfl
  have hfile := h.file
  rw [hempty, List.append_nil] at hfile
  rw [Delivered, hfile, kept_eq_iff]

/-- **After every round the file has all that the round took, exactly when no message of it met
a room of its own length**; and no run goes wrong. -/
theorem delivered_after_round (as : List Action) (hfair : Each step Fair start as) :
    ∃ s, exec step start as = .ok s ∧ (s.inRound = false →
      (Delivered s ↔ ∀ e ∈ s.appended.take s.taken, ¬ e.Lost)) := by
  obtain ⟨s, hs, -⟩ := exec_total step_total (s := start) new_sound as
  exact ⟨s, hs, (exec_inv_of_each step_inv start_inv hfair hs).delivered_iff⟩

theorem delivered_after_round_one :
    ∃ s, exec step start [.append ⟨[65], by decide⟩, .round, .round] = .ok s ∧ (s.inRound = false →
      (Delivered s ↔ ∀ e ∈ s.appended.take s.taken, ¬ e.Lost)) := by
  refine delivered_after_round _ ?_
  refine each_cons.mpr fun t ht => ⟨?_, each_cons.mpr fun u hu => ⟨?_, ?_⟩⟩
  · show [65].length ≤ smallBufferSize
    decide
  · obtain rfl := Except.ok.inj ht
    exact fun _ => by decide
  · refine each_cons.mpr fun v hv => ⟨fun hr => ?_, each_nil⟩
    obtain rfl := Except.ok.inj ht
    obtain rfl := Except.ok.inj hu
    cases hr

/-! ### A buffer filled to the last byte -/

/-- A message of the greatest length, and a thousand of them. -/
def line : Message := ⟨List.replicate smallBufferSize 65, by rw [List.length_replicate]; decide⟩
def lines : List Action := List.replicate 1000 (.append line)

/-- So many messages are in the first buffer, and no other buffer is in use. -/
structure Filled (k : ℕ) (s : Sys) : Prop where
  current : ∃ b : LogBuffer, s.log.bufferCurrent_ = some b ∧ b.data_.length = smallBufferSize * k
  vector : s.log.bufferVector_ = []
  idle : s.inRound = false

lemma length_line : line.val.length = smallBufferSize := List.length_replicate ..

/-- One message more, if there is room for it. -/
lemma filled_append {k : ℕ} {s : Sys} (h : Filled k s) (hk : k < 1000) :
    ∃ (room : ℤ) (s' : Sys), step s (.append line) = .ok s' ∧
      s'.appended = s.appended ++ [⟨line.val, room⟩] ∧ s'.log.bufferVector_ = [] ∧
      s'.inRound = false ∧ room = smallBufferSize * (1000 - k) ∧ (k < 999 → Filled (k + 1) s') := by
  obtain ⟨⟨b, hb, hlen⟩, hvec, hidle⟩ := h
  have hroom : b.getRemainLen = smallBufferSize * (1000 - k) := by
    rw [FixedBuffer.getRemainLen, hlen]
    push_cast [bigBufferSize, smallBufferSize]
    ring
  have hfit : toInt line.val.length ≤ b.getRemainLen := by
    rw [toInt_of_le line.2, length_line, hroom]
    push_cast [smallBufferSize]
    omega
  refine ⟨b.getRemainLen, ⟨{ s.log with bufferCurrent_ := some (b.put line.val) }, s.inRound,
    s.appended ++ [⟨line.val, b.getRemainLen⟩], s.taken⟩, ?_, rfl, hvec, hidle, hroom,
    fun hlt => ?_⟩
  · simp [step, AsyncLogging.append, hb, deref, hfit, FixedBuffer.append_put line.2]
  · refine ⟨⟨_, rfl, ?_⟩, hvec, hidle⟩
    rw [FixedBuffer.put, if_pos]
    · rw [List.length_append, hlen, length_line]
      ring
    · rw [length_line, hroom]
      push_cast [smallBufferSize]
      omega

lemma exec_fill (k : ℕ) (hk : k ≤ 999) :
    ∃ s, exec step start (List.replicate k (.append line)) = .ok s ∧ Filled k s := by
  induction k with
  | zero => exact ⟨start, rfl, ⟨_, rfl, rfl⟩, rfl, rfl⟩
  | succ k ih =>
    obtain ⟨s, hs, hf⟩ := ih (by omega)
    obtain ⟨_, s', hs', -, -, -, -, hf'⟩ := filled_append hf (by omega)
    refine ⟨s', ?_, hf' (by omega)⟩
    rw [List.replicate_succ', exec_append_ok _ hs, exec_cons_ok _ hs', exec_nil]

lemma exec_rounds {s : Sys} (h : s.log.Sound s.inRound) (hidle : s.inRound = false) :
    ∃ log, exec step s [.round, .round] = .ok ⟨log, false, s.appended, s.appended.length⟩ := by
  rw [hidle] at h
  obtain ⟨a1, h1, hs1, -⟩ := collect_spec h
  obtain ⟨a2, h2, -⟩ := writeOut_spec hs1
  refine ⟨a2, ?_⟩
  have hc : step s .round = .ok ⟨a1, true, s.appended, s.appended.length⟩ := by
    simp [step, hidle, h1]
  have hw : step ⟨a1, true, s.appended, s.appended.length⟩ .round =
      .ok ⟨a2, false, s.appended, s.appended.length⟩ := by
    simp [step, h2]
  rw [exec_cons_ok _ hc, exec_cons_ok _ hw, exec_nil]

lemma fair_rounds {s : Sys} (hidle : s.inRound = false) (hvec : s.log.bufferVector_ = []) :
    Each step Fair s [.round, .round] := by
  refine each_cons.mpr fun t ht => ⟨fun _ => by rw [hvec]; decide, each_cons.mpr fun u hu =>
    ⟨fun hr => ?_, each_nil⟩⟩
  simp only [step, hidle] at ht
  obtain ⟨a, -, ht⟩ := bind_ok_iff.mp ht
  obtain rfl := Except.ok.inj ht
  cases hr

/-- The last of a thousand messages of 4000 bytes is dropped. -/
theorem thousandth_line_lost : ∃ s, Each step Fair start (lines ++ [.round, .round]) ∧
    exec step start (lines ++ [.round, .round]) = .ok s ∧ s.inRound = false ∧ ¬ Delivered s := by
  obtain ⟨s, hs, hf⟩ := exec_fill 999 le_rfl
  obtain ⟨room, s1, h1, happ, hvec, hidle, hroom, -⟩ := filled_append hf (by omega)
  have hlines : exec step start lines = .ok s1 := by
    rw [lines, List.replicate_succ', exec_append_ok _ hs, exec_cons_ok _ h1, exec_nil]
  have hfair : Each step Fair start lines := by
    refine each_of_forall (fun a ha s => ?_) start
    rw [List.eq_of_mem_replicate ha]
    exact length_line.le
  have hfair' : Each step Fair start (lines ++ [.round, .round]) := by
    refine each_append.mpr ⟨hfair, fun t ht => ?_⟩
    obtain rfl := Except.ok.inj (hlines.symm.trans ht)
    exact fair_rounds hidle hvec
  have hi := exec_inv_of_each step_inv start_inv hfair hlines
  obtain ⟨log, hlog⟩ := exec_rounds hi.sound hidle
  have hrun : exec step start (lines ++ [.round, .round]) =
      .ok ⟨log, false, s1.appended, s1.appended.length⟩ := by
    rw [exec_append_ok _ hlines, hlog]
  refine ⟨_, hfair', hrun, rfl, fun hd => ?_⟩
  have hi' := exec_inv_of_each step_inv start_inv hfair' hrun
  have hmem : (⟨line.val, room⟩ : Entry) ∈ s1.appended.take s1.appended.length := by
    rw [List.take_length, happ]; simp
  refine (hi'.delivered_iff rfl).mp hd _ hmem ⟨?_, ?_⟩
  · exact List.length_pos_iff.mp (by rw [length_line]; decide)
  · rw [hroom, length_line]
    norm_num

end MuduoZ.LogDelivery
