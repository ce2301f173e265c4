import MuduoZ.OutputStream

/-!
Calls in the loop thread, and whether the channel is watched for writing while bytes wait in the
output buffer.

A call half-closes the connection through `shutDownInLoop`, which is the last thing the call does.
-/

namespace MuduoZ.OutputWatch

open Connection Runs

/-- A call, with the result of the write it may make. -/
inductive Call
  | send (msg : Str) (written : Option ℕ)
  | shutDown
  | forceClose
  | handleWrite (written : Option ℕ)

def step (c : Connection) : Call → Result Connection
  | .send msg written => c.send true msg written
  | .shutDown => c.shutDown true
  | .forceClose => c.forceClose true
  | .handleWrite written => .ok (c.handleWrite written)

/-- While the connection is open, it is watched for writing exactly when bytes wait. -/
def Watched (c : Connection) : Prop :=
  c.state_ = .Connected ∨ c.state_ = .Disconnecting →
    (c.channel_.isWriteEvent = true ↔ c.outputBuffer_.readable ≠ [])

/-- How often the connection was half-closed. -/
def halfCloses (log : List Effect) : ℕ := log.count .shutdownWrite

/-- What is new is the half-close of `shutDownInLoop`, which finds no byte waiting. -/
def HalfClosed (c c' : Connection) : Prop :=
  ∃ found : Connection, c' = found.shutDownInLoop ∧ halfCloses found.log = halfCloses c.log ∧
    found.outputBuffer_.readable = []

/-- Where the call half-closes the connection, no byte waits. -/
def FinLast (c : Connection) (a : Call) : Prop :=
  ∀ c', step c a = .ok c' → halfCloses c.log < halfCloses c'.log → HalfClosed c c'

structure Inv (c : Connection) : Prop where
  valid : c.outputBuffer_.Valid
  watched : Watched c

variable {c c' : Connection}

lemma halfCloses_append {log l : List Effect} (h : .shutdownWrite ∉ l) :
    halfCloses (log ++ l) = halfCloses log := by
  rw [halfCloses, List.count_append, List.count_eq_zero.mpr h, Nat.add_zero, halfCloses]

/-- What a call keeps, and what it finds when it half-closes. -/
structure Keeps (c c' : Connection) : Prop where
  inv : Inv c'
  fin : halfCloses c.log < halfCloses c'.log → HalfClosed c c'

lemma Inv.keeps (h : Inv c) : Keeps c c := ⟨h, fun hlt => absurd hlt (lt_irrefl _)⟩

lemma send_keeps (h : Inv c) (msg : Str) (written : Option ℕ) :
    ∃ c', c.send true msg written = .ok c' ∧ Keeps c c' := by
  unfold send
  split_ifs with hst
  · obtain ⟨out, log, hs, hv, hr, -, -, hno, -⟩ := sendInLoop_spec h.valid msg written
    refine ⟨_, hs, ⟨hv, fun _ => ?_⟩, fun hlt => ?_⟩
    · have hw := h.watched (.inl hst)
      dsimp only
      rw [isWriteEvent_watching, hw, hr, ne_eq, ne_eq, ne_eq, List.append_eq_nil_iff, not_and_or]
    · dsimp only at hlt
      rw [halfCloses_append hno] at hlt
      exact absurd hlt (lt_irrefl _)
  · exact ⟨c, rfl, h.keeps⟩

lemma shutDown_keeps (h : Inv c) : ∃ c', c.shutDown true = .ok c' ∧ Keeps c c' := by
  unfold shutDown
  split_ifs with hst
  · have hw := h.watched (.inl hst)
    have hinv : ∀ log, Inv { c with state_ := .Disconnecting, log := log } :=
      fun log => ⟨h.valid, fun _ => hw⟩
    refine ⟨_, rfl, ?_, fun hlt => ⟨{ c with state_ := .Disconnecting }, rfl, rfl, ?_⟩⟩
    · unfold shutDownInLoop
      split_ifs
      exacts [hinv _, hinv _]
    · -- what is not watched for writing has nothing left to write
      by_contra hne
      rw [shutDownInLoop, if_neg (by simpa using hw.mpr hne)] at hlt
      exact lt_irrefl _ hlt
  · exact ⟨c, rfl, h.keeps⟩

lemma forceClose_keeps (h : Inv c) : ∃ c', c.forceClose true = .ok c' ∧ Keeps c c' := by
  unfold forceClose
  split_ifs with hst
  · refine ⟨c.handleClose, by simp [runInLoop, runTask, forceCloseInLoop, hst], ⟨h.valid, ?_⟩, ?_⟩
    · intro hopen
      rcases hopen with hopen | hopen <;> cases hopen
    · intro hlt
      dsimp only [handleClose, emit] at hlt
      rw [halfCloses_append (by simp)] at hlt
      exact absurd hlt (lt_irrefl _)
  · exact ⟨c, rfl, h.keeps⟩

lemma handleWrite_keeps (h : Inv c) (written : Option ℕ) : Keeps c (c.handleWrite written) := by
  obtain ⟨out, hv, hr, hdrain, hpart⟩ := handleWrite_spec h.valid written
  by_cases hd : c.Drains written
  · have hnil : out.readable = [] := hr.trans (List.drop_eq_nil_of_le hd.2.ge)
    rw [hdrain hd]
    refine ⟨⟨hv, fun _ => by simp [hnil]⟩, fun hlt => ?_⟩
    by_cases hst : c.state_ = .Disconnecting
    · refine ⟨{ c with
        outputBuffer_ := out
        channel_ := c.channel_.disableWriteEvent
        pendingFunctions_ :=
          c.pendingFunctions_ ++ if c.messageSendCallBack_ then [.messageSendCallBack] else []
        log := c.log ++ [.wrote (c.gone written)] }, ?_, halfCloses_append (by simp), hnil⟩
      simp [shutDownInLoop, emit, hst]
    · rw [if_neg hst, List.append_nil] at hlt
      dsimp only at hlt
      rw [halfCloses_append (by simp)] at hlt
      exact absurd hlt (lt_irrefl _)
  · rw [hpart hd]
    refine ⟨⟨hv, fun hopen => ?_⟩, fun hlt => ?_⟩
    · refine (h.watched hopen).trans (not_congr ?_)
      dsimp only
      rw [hr, List.drop_eq_nil_iff]
      constructor
      · intro hnil; simp [hnil]
      · intro hle
        by_contra hne
        exact hd ⟨hne, le_antisymm ((dropped_le written).trans (gone_le written)) hle⟩
    · dsimp only at hlt
      rw [halfCloses_append (by simp)] at hlt
      exact absurd hlt (lt_irrefl _)

lemma step_keeps (h : Inv c) (a : Call) : ∃ c', step c a = .ok c' ∧ Keeps c c' := by
  cases a with
  | send msg written => exact send_keeps h msg written
  | shutDown => exact shutDown_keeps h
  | forceClose => exact forceClose_keeps h
  | handleWrite written => exact ⟨_, rfl, handleWrite_keeps h written⟩

lemma established_inv (received sent : Bool) : Inv (OutputStream.established received sent) :=
  ⟨Buffer.new_valid 1024, fun _ => by
    constructor
    · intro hw
      have hread : Channel.new.enableReadEvent.isWriteEvent = false := by decide
      exact absurd (hread.symm.trans hw) (by decide)
    · exact fun hne => absurd (Buffer.new_readable 1024) hne⟩

/-- **Output that waits is watched**, along every run, and a half-close leaves nothing behind. -/
theorem output_watched (received sent : Bool) (calls : List Call) :
    (∃ c, exec step (OutputStream.established received sent) calls = .ok c) ∧
      Along step Watched (OutputStream.established received sent) calls ∧
      Each step FinLast (OutputStream.established received sent) calls := by
  have h0 := established_inv received sent
  have hinv : ∀ c a c', Inv c → step c a = .ok c' → Keeps c c' := fun c a c' h hs => by
    obtain ⟨c1, hs1, hk⟩ := step_keeps h a
    obtain rfl := Except.ok.inj (hs1.symm.trans hs)
    exact hk
  have htotal : ∀ c a, Inv c → ∃ c', step c a = .ok c' ∧ Inv c' := fun c a h => by
    obtain ⟨c', hs, hk⟩ := step_keeps h a
    exact ⟨c', hs, hk.inv⟩
  refine ⟨?_, ?_, ?_⟩
  · obtain ⟨c, hc, -⟩ := exec_total htotal h0 calls
    exact ⟨c, hc⟩
  · have hkeep : ∀ c a c', Inv c → True → step c a = .ok c' → Inv c' :=
      fun c a c' h _ hs => (hinv c a c' h hs).inv
    exact along_of_each hkeep (fun _ h => h.watched) h0 (each_of_forall (fun _ _ _ => trivial) _)
  · intro pre a post c c' _ hpre _ c'' hs
    have hc : Inv c := exec_inv (fun c a c' h hs => (hinv c a c' h hs).inv) h0 hpre
    exact (hinv c a c'' hc hs).fin

end MuduoZ.OutputWatch
