import MuduoZ.AsyncLogging

/-!
What the log file gets when the logger is stopped.

The loop of `run` looks at `running_` once a round, in front of the critical section. A message
that is appended after the critical section waits for another round, and when `stop` comes first
there is none.
-/

namespace MuduoZ.LogStop

open AsyncLogging Runs

/-- Where the back end is in `run`. -/
inductive Stage
  | test      -- in front of `while(running_)`
  | lock      -- in front of the critical section
  | wait      -- in `waitForSeconds`, which gives the lock back meanwhile
  | write     -- behind the critical section
  | returned
  deriving DecidableEq

/-- The log and its thread, what was appended, and how much of it had been at the last swap. -/
structure Sys where
  log : AsyncLogging
  running_ : Bool
  stage : Stage
  appended : List Str
  taken : ℕ

inductive Action
  | append (msg : Str)
  | run
  | stop

/-- After `start`. -/
def start : Sys := ⟨.new, true, .test, [], 0⟩

/-- The swap, and the rest of the critical section. -/
def swap (s : Sys) : Result Sys := do
  .ok { s with log := ← s.log.collect, stage := .write, taken := s.appended.length }

/-- A call of `append`, the next step of `run`, or the assignment of `stop`. -/
def step (s : Sys) : Action → Result Sys
  | .append msg => do
    .ok { s with log := ← s.log.append msg, appended := s.appended ++ [msg] }
  | .stop => .ok { s with running_ := false }
  | .run => match s.stage with
    | .test => .ok { s with stage := if s.running_ then .lock else .returned }
    | .lock => if s.log.bufferVector_.isEmpty then .ok { s with stage := .wait } else swap s
    | .wait => swap s
    | .write => do .ok { s with log := ← s.log.writeOut, stage := .test }
    | .returned => .ok s

/-- The buffer a message goes to. -/
def target (a : AsyncLogging) (msg : Str) : Option LogBuffer := a.bufferCurrent_.map fun current =>
  if toInt msg.length ≤ current.getRemainLen then current else a.bufferNext_.getD .new

/-- The back end is between its test of `running_` and its swap. -/
def BeforeSwap (s : Sys) : Prop := s.stage = .lock ∨ s.stage = .wait

instance (s : Sys) : Decidable (BeforeSwap s) := inferInstanceAs (Decidable (_ ∨ _))

/-- A message is smaller than the free space of the buffer it goes to, and a round finds at most
25 buffers. -/
def Fair (s : Sys) : Action → Prop
  | .append msg => ∀ b ∈ target s.log msg, msg.length < b.getRemainLen
  | .run => BeforeSwap s → s.log.bufferVector_.length + 1 ≤ 25
  | .stop => True

instance : ∀ s a, Decidable (Fair s a)
  | s, .append msg => inferInstanceAs (Decidable (∀ b ∈ target s.log msg, _))
  | _, .run => inferInstanceAs (Decidable (_ → _))
  | _, .stop => inferInstanceAs (Decidable True)

/-! ### The run -/

/-- The file, the buffers of the round and the front end hold the messages, in order. -/
structure Inv (s : Sys) : Prop where
  sound : s.log.Sound (decide (s.stage = .write))
  taken_le : s.taken ≤ s.appended.length
  file : s.log.output.flatten ++ contents s.log.bufferBackVec = (s.appended.take s.taken).flatten
  front : s.log.front = (s.appended.drop s.taken).flatten
  few : s.stage = .write → s.log.bufferBackVec.length ≤ 25

lemma start_inv : Inv start := ⟨new_sound, le_rfl, rfl, rfl, by decide⟩

lemma put_fits {b : LogBuffer} {msg : Str} (h : msg.length < b.getRemainLen) :
    (b.put msg).data_ = b.data_ ++ msg := by
  rw [FixedBuffer.put, if_pos h]

/-- A message with room for it comes behind what waits. -/
lemma append_front {inRound : Bool} {a : AsyncLogging} (h : a.Sound inRound) {msg : Str}
    (hroom : ∀ b ∈ target a msg, msg.length < b.getRemainLen) :
    ∃ a', a.append msg = .ok a' ∧ a'.Sound inRound ∧ a'.bufferBackVec = a.bufferBackVec ∧
      a'.output = a.output ∧ a'.front = a.front ++ msg := by
  -- what is smaller than the room of a buffer passes for what it is
  have hint : msg.length ≤ INT_MAX := by
    obtain ⟨cur, hcur⟩ := h.current
    have hlt := hroom _ (by rw [target, hcur]; exact rfl)
    rw [FixedBuffer.getRemainLen] at hlt
    unfold bigBufferSize INT_MAX at *
    omega
  obtain ⟨bs, cur, a', hvec, hcur, happ, hsound, hback, hout, hfront⟩ := append_buffers h hint
  refine ⟨a', happ, hsound, hback, hout, ?_⟩
  have hold : a.front = (bs.map FixedBuffer.data_).flatten ++ cur.data_ := by
    rw [← contents_some, front, hvec, hcur]
    simp [contents]
  have hroom : msg.length < (if toInt msg.length ≤ cur.getRemainLen then cur else
      a.bufferNext_.getD .new).getRemainLen := hroom _ (by rw [target, hcur]; exact rfl)
  rw [toInt_of_le hint] at hroom
  rcases hfront with ⟨hlen, hfront⟩ | ⟨hlen, b, hb, hfront⟩
  · rw [if_pos hlen] at hroom
    rw [front, hfront, hold, contents_some]
    simp [put_fits hroom]
  · rw [if_neg (not_le.mpr hlen)] at hroom
    have hempty : (a.bufferNext_.getD .new).data_ = [] := by
      cases hn : a.bufferNext_ with
      | some next => exact h.next next hn
      | none => rfl
    have hroom : msg.length < b.getRemainLen := by
      rwa [FixedBuffer.getRemainLen, hempty, ← hb] at hroom
    rw [front, hfront, hold, contents_some]
    simp [put_fits hroom, hb]

lemma swap_inv {s s' : Sys} (hs : Inv s) (hw : s.stage ≠ .write)
    (hfew : s.log.bufferVector_.length + 1 ≤ 25) (h : swap s = .ok s') : Inv s' := by
  obtain ⟨hsound, hle, hfile, hfront, -⟩ := hs
  rw [decide_eq_false hw] at hsound
  obtain ⟨a', hc, hsound', hfront', hout, hlen⟩ := collect_spec hsound
  rw [swap, hc] at h
  obtain rfl := Except.ok.inj h
  refine ⟨hsound', le_rfl, ?_, by simp [hfront'], fun _ => by rw [hlen]; exact hfew⟩
  dsimp only
  rw [hout, hfile, hfront, ← List.flatten_append, List.take_append_drop, List.take_length]

lemma step_inv (s : Sys) (a : Action) (s' : Sys) (hs : Inv s) (ha : Fair s a)
    (h : step s a = .ok s') : Inv s' := by
  have hs₀ := hs
  obtain ⟨hsound, hle, hfile, hfront, hfew⟩ := hs
  cases a with
  | append msg =>
    obtain ⟨a', happ, hsound', hback, hout, hfront'⟩ := append_front hsound ha
    simp only [step, happ, bind, Except.bind] at h
    obtain rfl := Except.ok.inj h
    refine ⟨hsound', by simp; omega, ?_, ?_, by rwa [hback]⟩
    · simp only [hout, hback, hfile, List.take_append_of_le_length hle]
    · simp only [hfront', hfront, List.drop_append_of_le_length hle, List.flatten_append,
        List.flatten_singleton]
  | stop =>
    obtain rfl := Except.ok.inj h
    exact ⟨hsound, hle, hfile, hfront, hfew⟩
  | run =>
    cases hst : s.stage with
    | test =>
      simp only [step, hst] at h
      obtain rfl := Except.ok.inj h
      rw [hst] at hsound
      have hstage : (if s.running_ then Stage.lock else .returned) ≠ .write := by split <;> decide
      exact ⟨by rwa [decide_eq_false hstage], hle, hfile, hfront, fun h => absurd h hstage⟩
    | lock =>
      simp only [step, hst] at h
      split at h
      · obtain rfl := Except.ok.inj h
        rw [hst] at hsound
        exact ⟨hsound, hle, hfile, hfront, (by cases ·)⟩
      · exact swap_inv hs₀ (by rw [hst]; decide) (ha (.inl hst)) h
    | wait =>
      simp only [step, hst] at h
      exact swap_inv hs₀ (by rw [hst]; decide) (ha (.inr hst)) h
    | write =>
      rw [hst] at hsound
      obtain ⟨a', hw, hsound', hfront', hout⟩ := writeOut_spec hsound
      simp only [step, hst, hw, bind, Except.bind] at h
      obtain rfl := Except.ok.inj h
      exact ⟨hsound', hle, (hout (hfew hst)).trans hfile, hfront'.trans hfront, (by cases ·)⟩
    | returned =>
      simp only [step, hst] at h
      obtain rfl := Except.ok.inj h
      exact hs₀

/-! ### After `stop` -/

/-- What a stopped logger still takes of the first messages: all of them when the back end is in
front of its swap or has been there since, else what it had. -/
structure Stopped (msgs : List Str) (all : Bool) (taken : ℕ) (s : Sys) : Prop where
  running : s.running_ = false
  appended : msgs <+: s.appended
  later : all = true → BeforeSwap s ∨ msgs.length ≤ s.taken
  never : all = false → ¬ BeforeSwap s ∧ s.taken = taken

lemma Stopped.step {msgs : List Str} {all : Bool} {taken : ℕ} (s : Sys) (a : Action) (s' : Sys)
    (hs : Stopped msgs all taken s) (h : step s a = .ok s') : Stopped msgs all taken s' := by
  obtain ⟨hrun, happ, hlater, hnever⟩ := hs
  have hswap : BeforeSwap s → swap s = .ok s' → Stopped msgs all taken s' := by
    intro hb h
    obtain ⟨log, -, h⟩ := bind_ok_iff.mp h
    obtain rfl := Except.ok.inj h
    exact ⟨hrun, happ, fun _ => .inr happ.length_le, fun hall => absurd hb (hnever hall).1⟩
  cases a with
  | append msg =>
    obtain ⟨log, -, h⟩ := bind_ok_iff.mp h
    obtain rfl := Except.ok.inj h
    exact ⟨hrun, happ.trans (List.prefix_append _ _), hlater, hnever⟩
  | stop =>
    obtain rfl := Except.ok.inj h
    exact ⟨rfl, happ, hlater, hnever⟩
  | run =>
    cases hst : s.stage with
    | test =>
      simp only [LogStop.step, hst, hrun] at h
      obtain rfl := Except.ok.inj h
      have hb : ¬ BeforeSwap s := by simp [BeforeSwap, hst]
      exact ⟨rfl, happ, fun hall => .inr ((hlater hall).resolve_left hb),
        fun hall => ⟨by simp [BeforeSwap], (hnever hall).2⟩⟩
    | lock =>
      simp only [LogStop.step, hst] at h
      split at h
      · obtain rfl := Except.ok.inj h
        exact ⟨hrun, happ, fun _ => .inl (.inr rfl), fun hall => absurd (.inl hst) (hnever hall).1⟩
      · exact hswap (.inl hst) h
    | wait =>
      simp only [LogStop.step, hst] at h
      exact hswap (.inr hst) h
    | write =>
      simp only [LogStop.step, hst] at h
      obtain ⟨log, -, h⟩ := bind_ok_iff.mp h
      obtain rfl := Except.ok.inj h
      have hb : ¬ BeforeSwap s := by simp [BeforeSwap, hst]
      exact ⟨hrun, happ, fun hall => .inr ((hlater hall).resolve_left hb),
        fun hall => ⟨by simp [BeforeSwap], (hnever hall).2⟩⟩
    | returned =>
      simp only [LogStop.step, hst] at h
      obtain rfl := Except.ok.inj h
      exact ⟨hrun, happ, hlater, hnever⟩

lemma stop_stopped (s : Sys) :
    Stopped s.appended (decide (BeforeSwap s)) s.taken { s with running_ := false } :=
  ⟨rfl, List.prefix_refl _, fun h => .inl (of_decide_eq_true h),
    fun h => ⟨of_decide_eq_false h, rfl⟩⟩

/-- What the file has when `run` has returned. -/
lemma Inv.returned {s : Sys} (h : Inv s) (hret : s.stage = .returned) :
    s.log.output.flatten = (s.appended.take s.taken).flatten := by
  obtain ⟨hsound, -, hfile, -⟩ := h
  rw [hret] at hsound
  rw [← hfile, (hsound.idle rfl).2.2]
  exact (List.append_nil _).symm

/-- A list of messages begins with all of its bytes when what is left out has none. -/
lemma flatten_prefix_take_iff (msgs : List Str) (n : ℕ) :
    msgs.flatten <+: (msgs.take n).flatten ↔ ∀ msg ∈ msgs.drop n, msg = [] := by
  have hsplit : msgs.flatten = (msgs.take n).flatten ++ (msgs.drop n).flatten := by
    rw [← List.flatten_append, List.take_append_drop]
  rw [← List.flatten_eq_nil_iff, hsplit]
  constructor
  · intro h
    have := h.length_le
    rw [List.length_append] at this
    exact List.length_eq_zero_iff.mp (by omega)
  · intro h
    rw [h, List.append_nil]

/-- **A stop flushes the log exactly when the back end is in front of its swap or nothing was
appended since the last one**: what the file has when `run` has returned. -/
theorem flushed_iff {as bs : List Action} {s t : Sys} (hs : exec step start as = .ok s)
    (ht : exec step s (.stop :: bs) = .ok t) (hfair : Each step Fair start (as ++ .stop :: bs))
    (hret : t.stage = .returned) : s.appended.flatten <+: t.log.output.flatten ↔
      BeforeSwap s ∨ ∀ msg ∈ s.appended.drop s.taken, msg = [] := by
  have hrun : exec step start (as ++ .stop :: bs) = .ok t := by rw [exec_append_ok _ hs, ht]
  have hinv := exec_inv_of_each step_inv start_inv hfair hrun
  have hinv₀ := exec_inv_of_each step_inv start_inv (each_append.mp hfair).1 hs
  obtain ⟨u, hu, ht⟩ := (exec_cons_iff step).mp ht
  obtain rfl := Except.ok.inj hu
  obtain ⟨-, happ, hlater, hnever⟩ := exec_inv Stopped.step (stop_stopped s) ht
  obtain ⟨later, happ⟩ := happ
  have hb : ¬ BeforeSwap t := by simp [BeforeSwap, hret]
  rw [hinv.returned hret, ← happ]
  by_cases hall : BeforeSwap s
  · have htaken := (hlater (decide_eq_true hall)).resolve_left hb
    refine iff_of_true ?_ (.inl hall)
    rw [List.take_append, List.take_of_length_le htaken, List.flatten_append]
    exact List.prefix_append _ _
  · obtain ⟨-, htaken⟩ := hnever (decide_eq_false hall)
    rw [htaken, List.take_append_of_le_length hinv₀.taken_le, flatten_prefix_take_iff]
    exact (or_iff_right hall).symm

/-- Steps to the return of a stopped logger. -/
def rank : Stage → ℕ
  | .returned => 0
  | .test => 1
  | .write => 2
  | .wait => 3
  | .lock => 4

lemma run_stopped {s : Sys} (hs : s.log.Sound (decide (s.stage = .write)))
    (hrun : s.running_ = false) : ∃ s', step s .run = .ok s' ∧
      s'.log.Sound (decide (s'.stage = .write)) ∧ s'.running_ = false ∧
      rank s'.stage ≤ rank s.stage - 1 := by
  have hswap : s.stage ≠ .write → ∃ s', swap s = .ok s' ∧
      s'.log.Sound (decide (s'.stage = .write)) ∧ s'.running_ = false ∧ s'.stage = .write := by
    intro hw
    rw [decide_eq_false hw] at hs
    obtain ⟨a', hc, hsound, -⟩ := collect_spec hs
    exact ⟨{ s with log := a', stage := .write, taken := s.appended.length }, by simp [swap, hc],
      hsound, hrun, rfl⟩
  cases hst : s.stage with
  | test =>
    rw [hst] at hs
    exact ⟨{ s with stage := .returned }, by simp [step, hst, hrun], hs, hrun, le_rfl⟩
  | lock =>
    by_cases hempty : s.log.bufferVector_.isEmpty
    · rw [hst] at hs
      exact ⟨{ s with stage := .wait }, by simp only [step, hst, if_pos hempty], hs, hrun, le_rfl⟩
    · obtain ⟨s', hs', hsound, hrun', hst'⟩ := hswap (by rw [hst]; decide)
      refine ⟨s', by simp only [step, hst, if_neg hempty, hs'], hsound, hrun', ?_⟩
      rw [hst']; decide
  | wait =>
    obtain ⟨s', hs', hsound, hrun', hst'⟩ := hswap (by rw [hst]; decide)
    exact ⟨s', by simp only [step, hst, hs'], hsound, hrun', by rw [hst']; decide⟩
  | write =>
    rw [hst] at hs
    obtain ⟨a', hw, hsound, -⟩ := writeOut_spec hs
    exact ⟨{ s with log := a', stage := .test }, by simp [step, hst, hw], hsound, hrun, le_rfl⟩
  | returned => exact ⟨s, by simp only [step, hst], hs, hrun, by rw [hst]; exact Nat.zero_le _⟩

/-- **A stopped logger returns** from `run`. -/
theorem stopped_returns {s : Sys} (n : ℕ) (hn : rank s.stage ≤ n)
    (hs : s.log.Sound (decide (s.stage = .write))) (hrun : s.running_ = false) :
    ∃ t, exec step s (List.replicate n .run) = .ok t ∧ t.stage = .returned := by
  induction n generalizing s with
  | zero =>
    refine ⟨s, rfl, ?_⟩
    cases hst : s.stage <;> rw [hst] at hn <;> simp [rank] at hn ⊢
  | succ n ih =>
    obtain ⟨s', hs', hsound, hrun', hrank⟩ := run_stopped hs hrun
    rw [List.replicate_succ, exec_cons_ok _ hs']
    exact ih (by omega) hsound hrun'

theorem flushed_iff_one : ∃ s t, exec step start [.append [65], .run] = .ok s ∧
    exec step s [.stop, .run, .run, .run, .run] = .ok t ∧ t.stage = .returned ∧
    (s.appended.flatten <+: t.log.output.flatten ↔
      BeforeSwap s ∨ ∀ msg ∈ s.appended.drop s.taken, msg = []) := by
  have hret : (exec step start
      ([.append [65], .run] ++ [.stop, .run, .run, .run, .run])).toOption.map Sys.stage =
        some .returned := by decide +kernel
  obtain ⟨t, ht, hret⟩ := exec_of_map hret
  obtain ⟨s, hs, ht⟩ := (exec_append_iff step).mp ht
  exact ⟨s, t, hs, ht, hret, flushed_iff hs ht (by decide +kernel) hret⟩

/-- A message is appended while the back end writes out the round before. -/
def before : List Action := [.append [65], .run, .run, .run, .append [66]]

/-- The log is stopped, and the back end returns. -/
def after : List Action := [.stop, .run, .run]

/-- A message that was appended before the stop is not in the file. -/
theorem not_flushed : ∃ s t, exec step start before = .ok s ∧ exec step s after = .ok t ∧
    Each step Fair start (before ++ after) ∧ t.stage = .returned ∧
    ¬ s.appended.flatten <+: t.log.output.flatten := by
  have hs : (exec step start before).toOption.map Sys.appended = some [[65], [66]] := by
    decide +kernel
  have ht : (exec step start (before ++ after)).toOption.map
      (fun t => (t.stage, t.log.output)) = some (.returned, [[65]]) := by
    decide +kernel
  obtain ⟨t, ht, hend⟩ := exec_of_map ht
  obtain ⟨s, hs', ht⟩ := (exec_append_iff step).mp ht
  rw [hs'] at hs
  obtain ⟨hret, hout⟩ := Prod.mk.inj hend
  refine ⟨s, t, hs', ht, by decide +kernel, hret, ?_⟩
  rw [Option.some.inj hs, hout]
  decide

end MuduoZ.LogStop
