import MuduoZ.Connection
import MuduoZ.Lib.Run

/-!
The output stream of a connection: what the socket has accepted and what waits in the output
buffer, against the messages that were to be sent.

Two results of a write break the stream. A direct write that fails drops its whole message, and
a drain of more bytes than an `int` counts is forgotten in part.
-/

namespace MuduoZ.OutputStream

open Connection Runs

/-- A call in the loop thread, with the result of the write it may make. -/
inductive Op
  | sendInLoop (msg : Str) (written : Option ℕ)
  | handleWrite (written : Option ℕ)

def step (c : Connection) : Op → Result Connection
  | .sendInLoop msg written => c.sendInLoop msg written
  | .handleWrite written => .ok (c.handleWrite written)

/-- No byte is lost, repeated or out of order. -/
def InOrder (c : Connection) : Prop :=
  accepted c.log ++ c.outputBuffer_.readable = (messages c.log).flatten

/-- The write of this call does not break the stream: a message written directly is not refused,
and a drain writes no more than `int` can count. -/
def Kept (c : Connection) : Op → Prop
  | .sendInLoop msg written => c.direct → msg ≠ [] → written ≠ none
  | .handleWrite written => (c.gone written).length ≤ INT_MAX

/-- A connection just established. -/
def established (messageReceivedCallBack messageSendCallBack : Bool) : Connection :=
  (Connection.new messageReceivedCallBack messageSendCallBack).connectEstablished

structure Inv (c : Connection) : Prop where
  valid : c.outputBuffer_.Valid
  stream : InOrder c

lemma established_inv (received sent : Bool) : Inv (established received sent) :=
  ⟨Buffer.new_valid 1024, by
    simp [InOrder, established, Connection.new, connectEstablished, emit]⟩

/-- A message is split between the socket and the buffer unless a direct write fails. -/
lemma taken_kept {c : Connection} {msg : Str} {written : Option ℕ}
    (hk : Kept c (.sendInLoop msg written)) : c.taken msg written ++ c.kept msg written = msg := by
  by_cases hd : c.direct
  · cases written with
    | some n => simp [taken, kept, hd]
    | none =>
      have hnil : msg = [] := by
        by_contra hne
        exact hk hd hne rfl
      simp [taken, kept, hd, hnil]
  · cases written <;> simp [taken, kept, hd]

/-- What a direct write takes comes before anything that waits. -/
lemma taken_readable {c : Connection} (h : c.outputBuffer_.Valid) (msg : Str)
    (written : Option ℕ) : c.taken msg written ++ c.outputBuffer_.readable =
      c.outputBuffer_.readable ++ c.taken msg written := by
  by_cases hd : c.direct
  · simp [readable_of_direct h hd]
  · cases written <;> simp [taken, hd]

lemma step_inv (c : Connection) (op : Op) (c' : Connection) (hc : Inv c) (hk : Kept c op)
    (h : step c op = .ok c') : Inv c' := by
  obtain ⟨hv, hs⟩ := hc
  unfold InOrder at hs
  cases op with
  | sendInLoop msg written =>
    obtain ⟨out, log, heq, hv', hr, hh, ha, -⟩ := sendInLoop_spec hv msg written
    rw [step, heq] at h
    cases h
    refine ⟨hv', ?_⟩
    calc accepted (c.log ++ log) ++ out.readable
      _ = accepted c.log ++ (c.taken msg written ++ c.outputBuffer_.readable) ++
            c.kept msg written := by simp [ha, hr]
      _ = (messages c.log).flatten ++ (c.taken msg written ++ c.kept msg written) := by
          rw [taken_readable hv, ← hs]; simp
      _ = (messages (c.log ++ log)).flatten := by rw [taken_kept hk]; simp [hh]
  | handleWrite written =>
    cases h
    obtain ⟨out, hv', hr, hdrain, hpart⟩ := handleWrite_spec hv written
    have hsplit := gone_append_drop hk
    by_cases hd : c.Drains written
    · rw [hdrain hd]
      refine ⟨hv', ?_⟩
      dsimp only [InOrder]
      split_ifs <;> simp [hr, hsplit, hs]
    · rw [hpart hd]
      exact ⟨hv', by simp [InOrder, hr, hsplit, hs]⟩

/-- A step that is not `Kept` breaks the stream: the lengths do not agree. -/
lemma step_broken (c : Connection) (op : Op) (c' : Connection) (hc : Inv c) (hk : ¬ Kept c op)
    (h : step c op = .ok c') : ¬ InOrder c' := by
  obtain ⟨hv, hs⟩ := hc
  have hlen := congrArg List.length hs
  rw [List.length_append, List.length_flatten] at hlen
  intro hs'
  have hlen' := congrArg List.length hs'
  rw [List.length_append, List.length_flatten] at hlen'
  cases op with
  | sendInLoop msg written =>
    obtain ⟨hd, hne, rfl⟩ : c.direct = true ∧ msg ≠ [] ∧ written = none := by
      simpa [Kept] using hk
    obtain ⟨out, log, heq, -, hr, hh, ha, -⟩ := sendInLoop_spec hv msg none
    rw [step, heq] at h
    cases h
    have hpos := List.length_pos_iff.mpr hne
    simp [hr, hh, ha, taken, kept, hd] at hlen'
    omega
  | handleWrite written =>
    cases h
    have hlt := dropped_lt (not_le.mp hk)
    have hle := gone_le (c := c) written
    obtain ⟨out, -, hr, hdrain, hpart⟩ := handleWrite_spec hv written
    by_cases hd : c.Drains written
    · have := hd.2
      omega
    · rw [hpart hd] at hlen'
      simp [hr] at hlen'
      omega

/-- No run of these calls goes wrong. -/
lemma step_total (c : Connection) (op : Op) (hc : c.outputBuffer_.Valid) :
    ∃ c', step c op = .ok c' ∧ c'.outputBuffer_.Valid := by
  cases op with
  | sendInLoop msg written => exact runTask_total hc written (.sendInLoop msg)
  | handleWrite written => exact ⟨_, rfl, handleWrite_valid hc written⟩

/-- **The stream is intact along a run exactly when every write in it keeps it**, and every
run goes through. -/
theorem inOrder_iff (received sent : Bool) (ops : List Op) :
    (∃ c, exec step (established received sent) ops = .ok c) ∧
      (Along step InOrder (established received sent) ops ↔
        Each step Kept (established received sent) ops) := by
  have h0 := established_inv received sent
  obtain ⟨c, hc, -⟩ := exec_total step_total h0.valid ops
  exact ⟨⟨c, hc⟩, along_iff_each step_inv (fun _ h => h.stream) step_broken h0⟩

/-- One message, refused by a full socket buffer, is neither sent nor kept. -/
theorem refused_message_lost :
    ¬ Along step InOrder (established true false) [.sendInLoop [1] none] := by
  intro h
  obtain ⟨c, hc⟩ : ∃ c, step (established true false) (.sendInLoop [1] none) = .ok c := ⟨_, rfl⟩
  have hc' := (along_cons.mp h).2 c hc
  refine step_broken _ _ c (established_inv true false) ?_ hc (along_nil.mp hc')
  intro hk
  exact hk rfl (by simp) rfl

end MuduoZ.OutputStream
