import MuduoZ.Fault
import MuduoZ.Lib.Run

/-!
`LogFile` and `AppendFile`: the bytes of a log file, and the count by which files are rolled.

A write that comes short is tried again with the rest of the message, until `ferror` says that
there was an error. The bytes that came with the error are not counted.
-/

namespace MuduoZ

open Runs

/-- What `fwrite_unlocked` of `len` bytes comes to, and `ferror` after it. -/
structure Fwrite (len : ℕ) where
  accepted : ℕ
  error : Bool
  le : accepted ≤ len
  progress : error = false → 0 < len → 0 < accepted

/-- What each call comes to, by its number and the bytes it is asked to write. -/
abbrev Writes := ∀ _ len : ℕ, Fwrite len

structure AppendFile where
  -- the bytes that the stream has accepted
  file_ : Str
  writtenBytes_ : ℕ
  deriving DecidableEq

namespace AppendFile

def new : AppendFile := ⟨[], 0⟩

def write (a : AppendFile) (msg : Str) (r : Fwrite msg.length) : ℕ × AppendFile :=
  (r.accepted, { a with file_ := a.file_ ++ msg.take r.accepted })

/-- The loop of `append`, from call `k` on. -/
def appendLoop (fwrite : Writes) (msg : Str) :
    ℕ → ℕ → ℕ → AppendFile → Result (ℕ × AppendFile)
  | 0, _, _, _ => .error .fuel
  | fuel + 1, k, written, a =>
    if written ≠ msg.length then
      let r := fwrite k (msg.drop written).length
      let (n, a) := a.write (msg.drop written) r
      if n ≠ (msg.drop written).length ∧ r.error = true then .ok (written, a)
      else appendLoop fwrite msg fuel (k + 1) (written + n) a
    else .ok (written, a)

def append (a : AppendFile) (msg : Str) (fwrite : Writes) : Result AppendFile := do
  let (written, a) ← appendLoop fwrite msg (msg.length + 1) 0 0 a
  .ok { a with writtenBytes_ := (a.writtenBytes_ + written) % 2 ^ 64 }

end AppendFile

structure LogFile where
  count_ : ℕ
  rollSize_ : ℕ
  appendFile_ : AppendFile
  -- the files that were rolled
  rolled : List AppendFile
  deriving DecidableEq

namespace LogFile

def new (rollSize : ℕ) : LogFile := ⟨0, rollSize, .new, []⟩

def rollFile (l : LogFile) : LogFile :=
  { l with appendFile_ := .new, rolled := l.rolled ++ [l.appendFile_] }

def appendUnlocked (l : LogFile) (msg : Str) (fwrite : Writes) : Result LogFile := do
  let l := { l with appendFile_ := ← l.appendFile_.append msg fwrite }
  let l := { l with count_ := (l.count_ + 1) % 2 ^ 64 }
  if l.appendFile_.writtenBytes_ > l.rollSize_ then .ok l.rollFile else .ok l

/-! ### The calls of `fwrite` -/

/-- The call ends the loop. -/
abbrev Failed {len : ℕ} (r : Fwrite len) : Prop := r.accepted ≠ len ∧ r.error = true

/-- With call `k` to come, of `len` bytes, the loop comes to call `k'`, of `len'` bytes. -/
inductive Comes (fwrite : Writes) : ℕ → ℕ → ℕ → ℕ → Prop
  | now {k len : ℕ} : 0 < len → Comes fwrite k len k len
  | later {k len k' len' : ℕ} :
      (fwrite k len).accepted < len → (fwrite k len).error = false →
      Comes fwrite (k + 1) (len - (fwrite k len).accepted) k' len' → Comes fwrite k len k' len'

/-- A call fails. -/
def Fails (fwrite : Writes) (k len : ℕ) : Prop :=
  ∃ k' len', Comes fwrite k len k' len' ∧ Failed (fwrite k' len')

/-- No call that fails accepts any bytes. -/
def Clean (fwrite : Writes) (k len : ℕ) : Prop :=
  ∀ k' len', Comes fwrite k len k' len' → Failed (fwrite k' len') → (fwrite k' len').accepted = 0

variable {fwrite : Writes} {k k' len len' : ℕ}

lemma comes_zero : ¬ Comes fwrite k 0 k' len' := by
  rintro (h | ⟨h, -, -⟩)
  · exact absurd h (Nat.lt_irrefl 0)
  · exact absurd h (Nat.not_lt_zero _)

/-- After a call that fails there is none. -/
lemma comes_failed (h : Failed (fwrite k len)) (hc : Comes fwrite k len k' len') :
    k' = k ∧ len' = len := by
  cases hc with
  | now => exact ⟨rfl, rfl⟩
  | later _ herror _ => exact absurd (h.2.symm.trans herror) (by decide)

lemma accepted_pos (h : ¬ Failed (fwrite k len)) (hlen : 0 < len) :
    0 < (fwrite k len).accepted := by
  cases herror : (fwrite k len).error with
  | false => exact (fwrite k len).progress herror hlen
  | true =>
    have hall : (fwrite k len).accepted = len := by
      by_contra hne
      exact h ⟨hne, herror⟩
    rwa [hall]

/-- After another call the loop goes on. -/
lemma comes_iff (h : ¬ Failed (fwrite k len)) (hf : Failed (fwrite k' len')) :
    Comes fwrite k len k' len' ↔
      Comes fwrite (k + 1) (len - (fwrite k len).accepted) k' len' := by
  constructor
  · rintro (- | ⟨-, -, hc⟩)
    · exact absurd hf h
    · exact hc
  · intro hc
    have hlt : (fwrite k len).accepted < len := by
      by_contra hle
      rw [Nat.sub_eq_zero_of_le (Nat.not_lt.mp hle)] at hc
      exact comes_zero hc
    refine .later hlt ?_ hc
    by_contra herror
    exact h ⟨hlt.ne, by simpa using herror⟩

lemma fails_iff (h : ¬ Failed (fwrite k len)) :
    Fails fwrite k len ↔ Fails fwrite (k + 1) (len - (fwrite k len).accepted) :=
  exists_congr fun _ => exists_congr fun _ => and_congr_left (comes_iff h)

lemma clean_iff (h : ¬ Failed (fwrite k len)) :
    Clean fwrite k len ↔ Clean fwrite (k + 1) (len - (fwrite k len).accepted) := by
  refine forall_congr' fun k' => forall_congr' fun len' => ?_
  exact ⟨fun hk hc hf => hk ((comes_iff h hf).mpr hc) hf,
    fun hk hc hf => hk ((comes_iff h hf).mp hc) hf⟩

lemma clean_failed (h : Failed (fwrite k len)) (hlen : 0 < len) :
    Clean fwrite k len ↔ (fwrite k len).accepted = 0 := by
  refine ⟨fun hk => hk k len (.now hlen) h, fun h0 k' len' hc _ => ?_⟩
  obtain ⟨rfl, rfl⟩ := comes_failed h hc
  exact h0

/-! ### The loop -/

variable {msg : Str} {fuel written : ℕ}

/-- **What the loop writes**: `counted` bytes that it counts, and then `lost` bytes that it does
not count. -/
lemma appendLoop_spec {a : AppendFile} (hw : written ≤ msg.length)
    (hf : msg.length < fuel + written) : ∃ counted lost,
      AppendFile.appendLoop fwrite msg fuel k written a = .ok (written + counted,
        { a with file_ := a.file_ ++ (msg.drop written).take (counted + lost) }) ∧
      written + counted + lost ≤ msg.length ∧
      (lost = 0 ↔ Clean fwrite k (msg.drop written).length) ∧
      (¬ Fails fwrite k (msg.drop written).length → written + counted + lost = msg.length) := by
  induction fuel generalizing k written a with
  | zero => omega
  | succ fuel ih =>
    rw [AppendFile.appendLoop]
    by_cases hne : written = msg.length
    · have hdrop : msg.drop written = [] := by rw [hne, List.drop_length]
      refine ⟨0, 0, ?_, hw, ?_, fun _ => hne⟩
      · rw [if_neg (not_not.mpr hne), hdrop]
        simp
      · rw [hdrop]
        exact iff_of_true rfl fun k' len' hc => absurd hc comes_zero
    · have hlen : 0 < (msg.drop written).length := by rw [List.length_drop]; omega
      have hle := (fwrite k (msg.drop written).length).le
      rw [if_pos hne]
      dsimp only [AppendFile.write]
      by_cases hfail : Failed (fwrite k (msg.drop written).length)
      · have hclean := clean_failed hfail hlen
        rw [if_pos hfail]
        generalize (fwrite k (msg.drop written).length).accepted = n at hle hclean
        refine ⟨0, n, by rw [Nat.zero_add, Nat.add_zero], ?_, hclean.symm, fun h => ?_⟩
        · rw [List.length_drop] at hle; omega
        · exact absurd ⟨_, _, .now hlen, hfail⟩ h
      · -- the loop goes on after the bytes that were accepted
        have hpos := accepted_pos hfail hlen
        have hclean := clean_iff hfail
        have hfails := fails_iff hfail
        rw [if_neg hfail]
        generalize (fwrite k (msg.drop written).length).accepted = n at hle hpos hclean hfails
        rw [← List.length_drop, List.drop_drop] at hclean hfails
        rw [List.length_drop] at hle
        obtain ⟨counted, lost, hok, hsum, hclean', hfails'⟩ := @ih (k + 1) (written + n)
          { a with file_ := a.file_ ++ (msg.drop written).take n } (by omega) (by omega)
        refine ⟨n + counted, lost, ?_, by omega, hclean'.trans hclean.symm, fun h => ?_⟩
        · rw [hok, ← List.drop_drop, List.append_assoc, ← List.take_add, Nat.add_assoc,
            Nat.add_assoc]
        · have := hfails' (mt hfails.mpr h)
          omega

/-- **`append` ends**, with some bytes at the end of the message lost if a call fails. -/
lemma append_spec (a : AppendFile) (msg : Str) (fwrite : Writes) : ∃ counted lost,
    a.append msg fwrite = .ok ⟨a.file_ ++ msg.take (counted + lost),
      (a.writtenBytes_ + counted) % 2 ^ 64⟩ ∧
    counted + lost ≤ msg.length ∧ (lost = 0 ↔ Clean fwrite 0 msg.length) ∧
    (¬ Fails fwrite 0 msg.length → counted + lost = msg.length) := by
  obtain ⟨counted, lost, hok, hsum, hspec⟩ := @appendLoop_spec fwrite 0 msg (msg.length + 1) 0 a
    (Nat.zero_le _) (Nat.lt_succ_self _)
  rw [Nat.zero_add] at hok hsum hspec
  exact ⟨counted, lost, by rw [AppendFile.append, hok]; rfl, hsum, hspec⟩

/-! ### The log -/

/-- A call of `output`, and what its calls of `fwrite` come to. -/
structure Output where
  msg : Str
  len_lt : msg.length < 2 ^ 64
  fwrite : Writes

/-- `output`, with the lock or without. -/
def step (l : LogFile) (o : Output) : Result LogFile := l.appendUnlocked o.msg o.fwrite

/-- The file `a` has accepted the beginning of the message, all of it unless a call fails. What it
has accepted is counted, and decides whether it is rolled. -/
structure Counted (l : LogFile) (o : Output) (a : AppendFile) (bytes : Str) : Prop where
  append : l.appendFile_.append o.msg o.fwrite = .ok a
  file : a.file_ = l.appendFile_.file_ ++ bytes
  left : bytes <+: o.msg
  whole : ¬ Fails o.fwrite 0 o.msg.length → bytes = o.msg
  writtenBytes : a.writtenBytes_ = (l.appendFile_.writtenBytes_ + bytes.length) % 2 ^ 64
  roll : ∃ l', step l o = .ok l' ∧ l'.rolled =
    if a.file_.length % 2 ^ 64 > l.rollSize_ then l.rolled ++ [a] else l.rolled

def Accounts (l : LogFile) (o : Output) : Prop := ∃ a bytes, Counted l o a bytes

/-- The count is that of the file. -/
def Exact (a : AppendFile) : Prop := a.writtenBytes_ = a.file_.length % 2 ^ 64

variable {l l' : LogFile} {o : Output}

lemma step_eq {a : AppendFile} (h : l.appendFile_.append o.msg o.fwrite = .ok a) :
    step l o = .ok
      (let l := { l with appendFile_ := a, count_ := (l.count_ + 1) % 2 ^ 64 }
      if a.writtenBytes_ > l.rollSize_ then l.rollFile else l) := by
  rw [step, appendUnlocked, h, ok_bind]
  dsimp only
  split <;> rfl

lemma step_total (l : LogFile) (o : Output) : ∃ l', step l o = .ok l' := by
  obtain ⟨counted, lost, hok, -⟩ := append_spec l.appendFile_ o.msg o.fwrite
  exact ⟨_, step_eq hok⟩

/-- A count that is right shows that nothing was lost. -/
lemma clean_of_accounts (h : Accounts l o) : Clean o.fwrite 0 o.msg.length := by
  obtain ⟨a, bytes, h⟩ := h
  obtain ⟨counted, lost, hok, hsum, hclean, -⟩ := append_spec l.appendFile_ o.msg o.fwrite
  obtain rfl := Except.ok.inj (h.append.symm.trans hok)
  have hbytes := List.append_cancel_left h.file
  have hcount := h.writtenBytes
  rw [← hbytes, List.length_take_of_le hsum] at hcount
  have hlt := o.len_lt
  exact hclean.mp (by dsimp only at hcount; omega)

lemma exact_new (rollSize : ℕ) : Exact (new rollSize).appendFile_ := rfl

/-- What a clean `append` writes is what it counts. -/
lemma append_clean (a : AppendFile) {msg : Str} {fwrite : Writes}
    (h : Clean fwrite 0 msg.length) : ∃ n ≤ msg.length,
      a.append msg fwrite = .ok ⟨a.file_ ++ msg.take n, (a.writtenBytes_ + n) % 2 ^ 64⟩ ∧
      (¬ Fails fwrite 0 msg.length → n = msg.length) := by
  obtain ⟨n, lost, hok, hle, hclean, hfails⟩ := append_spec a msg fwrite
  obtain rfl := hclean.mpr h
  exact ⟨n, hle, hok, hfails⟩

lemma Exact.append {a a' : AppendFile} {msg : Str} {fwrite : Writes} (h : Exact a)
    (hc : Clean fwrite 0 msg.length) (ha : a.append msg fwrite = .ok a') : Exact a' := by
  obtain ⟨n, hle, hok, -⟩ := append_clean a hc
  obtain rfl := Except.ok.inj (hok.symm.trans ha)
  unfold Exact at *
  rw [h, List.length_append, List.length_take_of_le hle, Nat.mod_add_mod]

lemma accounts_of_clean (h : Exact l.appendFile_) (hc : Clean o.fwrite 0 o.msg.length) :
    Accounts l o := by
  obtain ⟨n, hle, hok, hwhole⟩ := append_clean l.appendFile_ hc
  have hexact : _ = _ % 2 ^ 64 := h.append hc hok
  refine ⟨_, o.msg.take n, hok, rfl, List.take_prefix _ _, fun hf => ?_, ?_, _, step_eq hok, ?_⟩
  · rw [hwhole hf, List.take_length]
  · rw [List.length_take_of_le hle]
  · rw [← hexact]
    dsimp only
    split <;> rfl

lemma step_exact (h : Exact l.appendFile_) (hc : Clean o.fwrite 0 o.msg.length)
    (hs : step l o = .ok l') : Exact l'.appendFile_ := by
  obtain ⟨n, -, hok, -⟩ := append_clean l.appendFile_ hc
  obtain rfl := Except.ok.inj ((step_eq hok).symm.trans hs)
  dsimp only
  split
  · rfl
  · exact h.append hc hok

/-- **The bytes are counted exactly when no call that fails accepts any**: for all messages and
all that the calls come to. -/
theorem accounts_iff (rollSize : ℕ) (os : List Output) :
    Asks step Accounts (new rollSize) os ↔ ∀ o ∈ os, Clean o.fwrite 0 o.msg.length := by
  constructor
  · intro h o ho
    obtain ⟨pre, post, rfl⟩ := List.append_of_mem ho
    obtain ⟨l, hl, -⟩ := exec_total (I := fun _ => True)
      (fun l o _ => (step_total l o).imp fun _ hl => ⟨hl, trivial⟩) (s := new rollSize) trivial pre
    exact clean_of_accounts (h pre o post l rfl hl)
  · rintro h pre o post l rfl hl
    have hstep : ∀ l o l', Exact l.appendFile_ → Clean o.fwrite 0 o.msg.length →
        step l o = .ok l' → Exact l'.appendFile_ := fun _ _ _ => step_exact
    have hclean : Each step (fun _ o => Clean o.fwrite 0 o.msg.length) (new rollSize) pre :=
      each_of_forall (fun o ho _ => h o (by simp [ho])) _
    have hexact := exec_inv_of_each hstep (exact_new rollSize) hclean hl
    exact accounts_of_clean hexact (h o (by simp))

/-- Every call accepts one byte and has an error. -/
def halfWritten : Output where
  msg := str "ab"
  len_lt := by decide
  fwrite _ len := ⟨min 1 len, true, Nat.min_le_right .., fun h => by cases h⟩

/-- The file has a byte that is not counted. -/
theorem byte_uncounted :
    ¬ ∀ (rollSize : ℕ) (os : List Output), Asks step Accounts (new rollSize) os := by
  intro h
  have hclean := clean_of_accounts (h 0 [halfWritten] [] halfWritten [] (new 0) rfl rfl)
  have hzero := hclean 0 2 (.now (by decide)) (by decide)
  exact absurd hzero (by decide)

end LogFile

end MuduoZ
