import MuduoZ.LogFile
import MuduoZ.LogOrder

/-!
The logger down to the files: `append`, the rounds of the back end, and `LogFile`, which each
round passes its buffers to.

A file is known by its name, which has the time to the second. Two files of one second, or of a
clock that was set back, are one file, which the second stream goes on with.
-/

namespace MuduoZ.LogFiles

open AsyncLogging LogDelivery LogOrder Runs Records

/-- A call of `LogFile::output`: what its calls of `fwrite` come to, and the time by which
`getFileName` names the next file. -/
structure Call where
  fwrite : Writes
  str_t : Str

def getFileName (logFileName str_t : Str) : Str := logFileName ++ str_t

/-- `LogFile`, with the names of the files it has opened. -/
structure Files where
  logFileName_ : Str
  file : LogFile
  names : List Str

namespace Files

def new (rollSize : ℕ) (logFileName str_t : Str) : Files :=
  ⟨logFileName, .new rollSize, [getFileName logFileName str_t]⟩

variable (o : Files)

def output (msg : Str) (c : Call) : Result Files := do
  let file ← o.file.appendUnlocked msg c.fwrite
  let names := if file.rolled.length = o.file.rolled.length then o.names
    else o.names ++ [getFileName o.logFileName_ c.str_t]
  .ok { o with file := file, names := names }

/-- The loop of `run` over the buffers of a round. The calls are numbered. -/
def outputAll (o : Files) (calls : ℕ → Call) : ℕ → List Str → Result Files
  | _, [] => .ok o
  | k, msg :: msgs => do (← o.output msg (calls k)).outputAll calls (k + 1) msgs

/-- The streams in the order in which they were opened, the open one last. -/
def streams : List AppendFile := o.file.rolled ++ [o.file.appendFile_]

/-- What the streams have accepted. -/
def texts : List Str := o.streams.map AppendFile.file_

/-- What the file of a name gets. -/
def onDisk (name : Str) : Str :=
  ((o.names.zip o.texts).filter (·.1 = name)).flatMap Prod.snd

end Files

structure Sys where
  log : LogDelivery.Sys
  output : Files

inductive Action
  | append (msg : Message)
  | round (calls : ℕ → Call)

def start (rollSize : ℕ) (logFileName str_t : Str) : Sys :=
  ⟨LogDelivery.start, .new rollSize logFileName str_t⟩

/-- A call of `append`, or the next step of the back end, which passes on what it takes from the
buffers and flushes. -/
def step (s : Sys) : Action → Result Sys
  | .append msg => do .ok { s with log := ← LogDelivery.step s.log (.append msg) }
  | .round calls => do
    let log ← LogDelivery.step s.log .round
    let msgs := log.log.output.drop s.log.log.output.length
    .ok ⟨log, ← s.output.outputAll calls 0 msgs⟩

/-- The step of the log alone. -/
def Action.log : Action → LogDelivery.Action
  | .append msg => .append msg
  | .round _ => .round

/-- No call of `fwrite` fails. -/
def Complete : Action → Prop
  | .append _ => True
  | .round calls => ∀ k len, ¬ LogFile.Fails (calls k).fwrite 0 len

variable {o o' : Files} {msg : Str} {c : Call} {s s' : Sys}

/-! ### A call of `output` -/

/-- After a call, the last stream has the message, and may be followed by a new one. -/
structure Wrote (o o' : Files) (msg : Str) : Prop where
  rollSize_ : o'.file.rollSize_ = o.file.rollSize_
  names : o'.names.length + o.streams.length = o.names.length + o'.streams.length
  streams : ∃ a : AppendFile, a.file_ = o.file.appendFile_.file_ ++ msg ∧
    a.writtenBytes_ = (o.file.appendFile_.writtenBytes_ + msg.length) % 2 ^ 64 ∧
    (a.writtenBytes_ ≤ o.file.rollSize_ ∧ o'.file.rolled = o.file.rolled ∧
        o'.file.appendFile_ = a ∨
      o.file.rollSize_ < a.writtenBytes_ ∧ o'.file.rolled = o.file.rolled ++ [a] ∧
        o'.file.appendFile_ = .new)

lemma output_spec (o : Files) (msg : Str) (hc : ¬ LogFile.Fails c.fwrite 0 msg.length) :
    ∃ o', o.output msg c = .ok o' ∧ Wrote o o' msg := by
  obtain ⟨counted, lost, hok, -, hclean, hwhole⟩ :=
    LogFile.append_spec o.file.appendFile_ msg c.fwrite
  have hlost : lost = 0 := hclean.mpr fun k' len' hk hf => absurd ⟨k', len', hk, hf⟩ hc
  have hcounted : counted = msg.length := by have := hwhole hc; omega
  rw [hlost, hcounted, Nat.add_zero, List.take_length] at hok
  generalize ha : (⟨o.file.appendFile_.file_ ++ msg,
    (o.file.appendFile_.writtenBytes_ + msg.length) % 2 ^ 64⟩ : AppendFile) = a at hok
  have hfile : a.file_ = o.file.appendFile_.file_ ++ msg := by rw [← ha]
  have hbytes : a.writtenBytes_ =
      (o.file.appendFile_.writtenBytes_ + msg.length) % 2 ^ 64 := by rw [← ha]
  simp only [Files.output, LogFile.appendUnlocked, hok, ok_bind]
  by_cases hroll : a.writtenBytes_ > o.file.rollSize_
  · rw [if_pos hroll, ok_bind]
    refine ⟨_, rfl, rfl, ?_, a, hfile, hbytes, .inr ⟨hroll, rfl, rfl⟩⟩
    simp [Files.streams, LogFile.rollFile]
    omega
  · rw [if_neg hroll, ok_bind]
    refine ⟨_, rfl, rfl, ?_, a, hfile, hbytes, .inl ⟨not_lt.mp hroll, rfl, rfl⟩⟩
    simp [Files.streams]

/-! ### The texts -/

/-- The streams hold what was passed on, and each has a name. -/
structure Holds (o : Files) (written : List Str) : Prop where
  names : o.names.length = o.streams.length
  grouped : Grouped o.texts written

variable {written : List Str}

lemma Wrote.holds (h : Wrote o o' msg) (ho : Holds o written) : Holds o' (written ++ [msg]) := by
  obtain ⟨-, hnames, a, hfile, -, hroll⟩ := h
  have hbefore : o.texts =
      o.file.rolled.map AppendFile.file_ ++ [o.file.appendFile_.file_] := by
    simp [Files.texts, Files.streams]
  have hput := ho.grouped
  rw [hbefore] at hput
  have hput := hput.put msg
  rw [← hfile] at hput
  refine ⟨by have := ho.names; omega, ?_⟩
  rcases hroll with ⟨-, hrolled, hcur⟩ | ⟨-, hrolled, hcur⟩
  · have hafter : o'.texts = o.file.rolled.map AppendFile.file_ ++ [a.file_] := by
      simp [Files.texts, Files.streams, hrolled, hcur]
    rw [hafter]
    exact hput
  · have hafter : o'.texts = o.file.rolled.map AppendFile.file_ ++ [a.file_] ++ [[]] := by
      simp [Files.texts, Files.streams, hrolled, hcur, AppendFile.new]
    rw [hafter]
    exact hput.next

/-- The streams that were rolled have grown beyond the limit, by the last message alone. -/
structure Sized (o : Files) : Prop where
  writtenBytes_ : o.file.appendFile_.writtenBytes_ = o.file.appendFile_.file_.length
  current : o.file.appendFile_.file_.length ≤ o.file.rollSize_
  rolled : ∀ a ∈ o.file.rolled, o.file.rollSize_ < a.file_.length ∧
    a.file_.length ≤ o.file.rollSize_ + bigBufferSize

lemma Wrote.sized (h : Wrote o o' msg) (ho : Sized o) (hmsg : msg.length ≤ bigBufferSize)
    (hroll : o.file.rollSize_ + bigBufferSize < 2 ^ 64) : Sized o' := by
  obtain ⟨hsize, -, a, hfile, hbytes, hcases⟩ := h
  obtain ⟨hcount, hcur, hrolled⟩ := ho
  have hlen : a.file_.length = o.file.appendFile_.file_.length + msg.length := by
    rw [hfile, List.length_append]
  have hcount' : a.writtenBytes_ = a.file_.length := by
    rw [hbytes, hcount, hlen]
    exact Nat.mod_eq_of_lt (by omega)
  rcases hcases with ⟨hle, hold, hnew⟩ | ⟨hlt, hold, hnew⟩
  · refine ⟨by rw [hnew, hcount'], by rw [hnew, hsize, ← hcount']; exact hle, fun b hb => ?_⟩
    rw [hold] at hb
    rw [hsize]
    exact hrolled b hb
  · refine ⟨by rw [hnew]; rfl, by rw [hnew]; exact Nat.zero_le _, fun b hb => ?_⟩
    rw [hold] at hb
    rw [hsize]
    rcases List.mem_append.mp hb with hb | hb
    · exact hrolled b hb
    · obtain rfl := List.mem_singleton.mp hb
      omega

/-- What every call keeps holds after the loop. -/
lemma outputAll_inv {I : Files → List Str → Prop} {calls : ℕ → Call} {msgs : List Str}
    (hc : ∀ k len, ¬ LogFile.Fails (calls k).fwrite 0 len)
    (hI : ∀ o o' msg written, msg ∈ msgs → Wrote o o' msg → I o written →
      I o' (written ++ [msg])) {k : ℕ} (ho : I o written) :
    ∃ o', o.outputAll calls k msgs = .ok o' ∧ I o' (written ++ msgs) := by
  induction msgs generalizing o k written with
  | nil => exact ⟨o, rfl, by rwa [List.append_nil]⟩
  | cons msg msgs ih =>
    obtain ⟨o1, hok, hw⟩ := output_spec o msg (hc k msg.length)
    have ho1 := hI o o1 msg written (List.mem_cons_self ..) hw ho
    obtain ⟨o2, hok2, ho2⟩ := ih
      (fun o o' m w hm => hI o o' m w (List.mem_cons_of_mem _ hm)) (k := k + 1) ho1
    refine ⟨o2, ?_, by simpa using ho2⟩
    rw [Files.outputAll, hok, ok_bind, hok2]

/-! ### What is passed on -/

/-- A step of the back end passes on some of the pieces, behind those before. -/
lemma round_output {s s' : LogDelivery.Sys} (hs : s.log.Sound s.inRound)
    (h : LogDelivery.step s .round = .ok s') : ∃ msgs,
      s'.log.output = s.log.output ++ msgs ∧ (∀ m ∈ msgs, m ∈ pieces s.log) ∧
      ∀ p ∈ pieces s'.log, p ∈ pieces s.log ∨ p = [] := by
  cases hr : s.inRound with
  | true =>
    rw [hr] at hs
    obtain ⟨bs, out, a', hback, hsub, -, hw, -, hvec, hcur, hnone, hout⟩ := writeOut_buffers hs
    simp only [LogDelivery.step, hr, if_true, hw, ok_bind] at h
    obtain rfl := Except.ok.inj h
    have hmem : ∀ m ∈ out.map FixedBuffer.data_, m ∈ pieces s.log := fun m hm => by
      have hm := (hsub.map FixedBuffer.data_).subset hm
      simp [pieces, hback, data_some, hm]
    refine ⟨_, hout, hmem, fun p hp => .inl ?_⟩
    simp only [pieces, hvec, hcur, hnone, hout, List.mem_append] at hp
    rcases hp with ((hp | hp) | hp) | hp
    · simp [pieces, hp]
    · exact hmem p hp
    · cases hp
    · simp [pieces, hp]
  | false =>
    rw [hr] at hs
    obtain ⟨cur, a', hc, -, hvec, hcur, hempty, hback, hout⟩ := collect_buffers hs
    simp only [LogDelivery.step, hr, hc, ok_bind] at h
    obtain rfl := Except.ok.inj h
    refine ⟨[], by simp [hout], by simp, fun p hp => ?_⟩
    simp only [pieces, hvec, hcur, hout, hback, List.mem_append] at hp
    rcases hp with (hp | hp) | hp
    · exact .inl (by simp [pieces, hp])
    · exact .inl (by simp [pieces, hp])
    · exact .inr (by simpa [data, hempty] using hp)

/-- `append` changes one piece, which is the text of a buffer with the message appended. -/
lemma append_pieces {s s' : LogDelivery.Sys} {msg : Message} (hs : s.log.Sound s.inRound)
    (h : LogDelivery.step s (.append msg) = .ok s') :
    s'.log.output = s.log.output ∧ ∀ p ∈ pieces s'.log, p ∈ pieces s.log ∨
      ∃ b : LogBuffer, (b.data_ ∈ pieces s.log ∨ b.data_ = []) ∧ p = (b.put msg.val).data_ := by
  obtain ⟨bs, cur, a', hvec, hcur, happ, -, hback, hout, hfront⟩ := append_buffers hs msg.2
  simp only [LogDelivery.step, hcur, deref, happ, ok_bind] at h
  obtain rfl := Except.ok.inj h
  refine ⟨hout, fun p hp => ?_⟩
  have hold : pieces s.log = s.log.output ++ data s.log.bufferBackVec ++
      (bs ++ [cur]).map FixedBuffer.data_ := by
    rw [← data_some]
    simp [pieces, hvec, hcur]
  rw [hold]
  simp only [pieces, hout, hback] at hp
  rcases hfront with ⟨-, hfront⟩ | ⟨-, b, hb, hfront⟩
  · rw [hfront, data_some, List.map_append, List.map_singleton, ← List.append_assoc] at hp
    rcases List.mem_append.mp hp with hp | hp
    · refine .inl ?_
      rw [List.map_append, ← List.append_assoc]
      exact List.mem_append_left _ hp
    · exact .inr ⟨cur, .inl (by simp), List.mem_singleton.mp hp⟩
  · rw [hfront, data_some] at hp
    simp only [List.map_append, List.map_cons, List.map_nil, List.mem_append, List.mem_cons,
      List.not_mem_nil, or_false] at hp ⊢
    rcases hp with hp | hp | hp | rfl
    · exact .inl (.inl hp)
    · exact .inl (.inr (.inl hp))
    · exact .inl (.inr (.inr hp))
    · exact .inr ⟨b, .inr hb, rfl⟩

/-! ### The run -/

variable {a : Action} {rollSize : ℕ} {logFileName str_t : Str} {as : List Action}

/-- A step keeps what every call of `output` keeps. -/
lemma step_spec {I : Files → List Str → Prop} (hs : LogOrder.Inv s.log)
    (hI : ∀ o o' msg written, msg ∈ pieces s.log.log → Wrote o o' msg → I o written →
      I o' (written ++ [msg])) (hc : Complete a) (ho : I s.output s.log.log.output) :
    ∃ s', step s a = .ok s' ∧ LogDelivery.step s.log a.log = .ok s'.log ∧
      LogOrder.Inv s'.log ∧ I s'.output s'.log.log.output := by
  obtain ⟨log, hlog, -⟩ := LogDelivery.step_total s.log a.log hs.sound
  have hinv := LogOrder.step_inv s.log a.log log hs hlog
  cases a with
  | append msg =>
    refine ⟨{ s with log := log }, ?_, hlog, hinv, ?_⟩
    · exact congrArg (· >>= fun log => .ok { s with log := log }) hlog
    · rw [(append_pieces hs.sound hlog).1]
      exact ho
  | round calls =>
    obtain ⟨msgs, hout, hmem, -⟩ := round_output hs.sound hlog
    obtain ⟨o', hok, ho'⟩ := outputAll_inv (k := 0) hc
      (fun o o' msg written hm => hI o o' msg written (hmem msg hm)) ho
    refine ⟨⟨log, o'⟩, ?_, hlog, hinv, by rwa [hout]⟩
    have hlog : LogDelivery.step s.log .round = .ok log := hlog
    rw [step, hlog, ok_bind, hout, List.drop_left]
    simp only [hok, ok_bind]

/-- The files hold the messages whole. -/
structure Inv (s : Sys) : Prop where
  log : LogOrder.Inv s.log
  files : Holds s.output s.log.log.output

lemma start_inv : Inv (start rollSize logFileName str_t) :=
  ⟨LogOrder.start_inv, rfl, grouped_new⟩

lemma step_inv (s : Sys) (a : Action) (hs : Inv s) (hc : Complete a) :
    ∃ s', step s a = .ok s' ∧ Inv s' := by
  obtain ⟨s', hok, -, hlog, hfiles⟩ :=
    step_spec hs.log (fun o o' msg written _ hw ho => hw.holds ho) hc hs.files
  exact ⟨s', hok, hlog, hfiles⟩

lemma asks_of_forall {ok : Action → Prop} (h : ∀ a ∈ as, ok a) (s : Sys) :
    Asks step (fun _ a => ok a) s as :=
  fun pre a post _ he _ => h a (by simp [he])

/-- **No message is torn between two files**: in every run in which no write fails, each stream
holds some of the messages, whole, in order and none twice, and together they hold all that was
passed on. So does the file of each name, when the clock gave two streams one name. -/
theorem files_whole (rollSize : ℕ) (logFileName str_t : Str) (h : ∀ a ∈ as, Complete a) :
    ∃ s, exec step (start rollSize logFileName str_t) as = .ok s ∧
      s.output.texts.flatten = s.log.log.output.flatten ∧
      Whole s.output.texts (s.log.appended.map Entry.msg) ∧
      ∀ name, ∃ msgs : List Str, msgs.Sublist (s.log.appended.map Entry.msg) ∧
        s.output.onDisk name = msgs.flatten := by
  obtain ⟨s, hs, hinv⟩ := exec_total_of_asks step_inv start_inv (asks_of_forall h _)
  have hpieces : s.log.log.output.Sublist (pieces s.log.log) := by
    rw [pieces, List.append_assoc]
    exact List.sublist_append_left _ _
  have hwhole := hinv.files.grouped.whole (hinv.log.whole.sublist hpieces)
  refine ⟨s, hs, hinv.files.grouped.flatten, hwhole, fun name => ?_⟩
  have hlen : s.output.texts.length ≤ s.output.names.length := by
    rw [hinv.files.names]
    simp [Files.texts]
  have hsub := (List.filter_sublist (p := (·.1 = name))
    (l := s.output.names.zip s.output.texts)).map Prod.snd
  rw [List.map_snd_zip hlen] at hsub
  exact (hwhole.sublist hsub).flatten

/-- Every write goes through, and the clock stands still. -/
def quickly : ℕ → Call := fun _ => ⟨fun _ len => ⟨len, false, le_rfl, fun _ h => h⟩, str " 1"⟩

/-- Two messages, each in a round of its own. -/
def twoRounds : List Action :=
  [.append ⟨str "a", by decide⟩, .round quickly, .round quickly, .append ⟨str "b", by decide⟩,
    .round quickly, .round quickly]

lemma complete_twoRounds : ∀ a ∈ twoRounds, Complete a := by
  have hquick : Complete (.round quickly) := fun k len ⟨k', len', _, hfail⟩ => by
    cases hfail.2
  intro a ha
  simp only [twoRounds, List.mem_cons, List.not_mem_nil, or_false] at ha
  rcases ha with rfl | rfl | rfl | rfl | rfl | rfl
  exacts [trivial, hquick, hquick, trivial, hquick, hquick]

/-- The two streams have one name. -/
theorem files_whole_two : ∃ s, exec step (start 0 (str "log") (str " 1")) twoRounds = .ok s ∧
    s.output.texts.flatten = s.log.log.output.flatten ∧
    Whole s.output.texts (s.log.appended.map Entry.msg) ∧
    ∀ name, ∃ msgs : List Str, msgs.Sublist (s.log.appended.map Entry.msg) ∧
      s.output.onDisk name = msgs.flatten :=
  files_whole 0 (str "log") (str " 1") complete_twoRounds

/-- The buffers are no longer than they may be, and the files are of the right size. -/
structure Fits (rollSize : ℕ) (s : Sys) : Prop where
  log : LogOrder.Inv s.log
  pieces : ∀ p ∈ pieces s.log.log, p.length ≤ bigBufferSize
  sized : Sized s.output
  rollSize_ : s.output.file.rollSize_ = rollSize

lemma start_fits : Fits rollSize (start rollSize logFileName str_t) :=
  ⟨LogOrder.start_inv, fun p hp => by
    obtain rfl := List.mem_singleton.mp hp
    exact Nat.zero_le _, ⟨rfl, Nat.zero_le _, by simp [start, Files.new, LogFile.new]⟩, rfl⟩

lemma length_put_le {b : LogBuffer} (hb : b.data_.length ≤ bigBufferSize) :
    (b.put msg).data_.length ≤ bigBufferSize := by
  unfold FixedBuffer.put
  split_ifs with hroom
  · rw [FixedBuffer.getRemainLen] at hroom
    simp only [List.length_append]
    omega
  · rwa [List.append_nil]

lemma step_fits (hroll : rollSize + bigBufferSize < 2 ^ 64) (s : Sys) (a : Action)
    (hs : Fits rollSize s) (ha : Complete a) :
    ∃ s', step s a = .ok s' ∧ Fits rollSize s' := by
  obtain ⟨s', hok, hstep, hlog, hsized, hsize⟩ := step_spec
    (I := fun o _ => Sized o ∧ o.file.rollSize_ = rollSize) hs.log
    (fun o o' msg written hm hw ⟨ho, hsize⟩ =>
      ⟨hw.sized ho (hs.pieces msg hm) (by rwa [hsize]), hw.rollSize_.trans hsize⟩)
    ha ⟨hs.sized, hs.rollSize_⟩
  refine ⟨s', hok, hlog, fun p hp => ?_, hsized, hsize⟩
  cases a with
  | append msg =>
    rcases (append_pieces hs.log.sound hstep).2 p hp with hp | ⟨b, hb, rfl⟩
    · exact hs.pieces p hp
    · refine length_put_le ?_
      rcases hb with hb | hb
      · exact hs.pieces _ hb
      · rw [hb]; exact Nat.zero_le _
  | round calls =>
    obtain ⟨-, -, -, hpieces⟩ := round_output hs.log.sound hstep
    rcases hpieces p hp with hp | rfl
    · exact hs.pieces p hp
    · exact Nat.zero_le _

/-- **A stream is rolled when it has grown beyond the limit, and not before**: it is then longer
than `rollSize_`, by one buffer at most, and the open one is not. -/
theorem file_sizes (logFileName str_t : Str) (hroll : rollSize + bigBufferSize < 2 ^ 64)
    (hc : ∀ a ∈ as, Complete a) :
    ∃ s, exec step (start rollSize logFileName str_t) as = .ok s ∧
      (∀ a ∈ s.output.file.rolled, rollSize < a.file_.length ∧
        a.file_.length ≤ rollSize + bigBufferSize) ∧
      s.output.file.appendFile_.file_.length ≤ rollSize := by
  obtain ⟨s, hs, -, -, hsized, hsize⟩ := exec_total_of_asks (step_fits hroll) start_fits
    (asks_of_forall hc (start rollSize logFileName str_t))
  exact ⟨s, hs, hsize ▸ hsized.rolled, hsize ▸ hsized.current⟩

/-- Every message goes to a file of its own. -/
theorem file_sizes_two : ∃ s, exec step (start 0 (str "log") (str " 1")) twoRounds = .ok s ∧
    (∀ a ∈ s.output.file.rolled, 0 < a.file_.length ∧ a.file_.length ≤ 0 + bigBufferSize) ∧
    s.output.file.appendFile_.file_.length ≤ 0 :=
  file_sizes (str "log") (str " 1") (by decide) complete_twoRounds

end MuduoZ.LogFiles
