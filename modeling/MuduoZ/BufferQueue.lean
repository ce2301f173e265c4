import MuduoZ.Buffer
import MuduoZ.Lib.Fifo
import MuduoZ.Lib.Run

/-!
The buffer as a queue of bytes, over any sequence of its calls.
-/

namespace MuduoZ.BufferQueue

open Runs

inductive Call
  | append (msg : Str)
  | appendString (s : Str)
  | haveReadForLen (len : ℤ)
  | haveReadAll
  | takeAll

def step (b : Buffer) : Call → Result Buffer
  | .append msg => b.append msg
  | .appendString s => b.appendString s
  | .haveReadForLen len => .ok (b.haveReadForLen len)
  | .haveReadAll => .ok b.haveReadAll
  | .takeAll => .ok b.takeAll

/-- What is appended has a length an `int` holds, and no more is consumed than is readable. -/
def Allowed (b : Buffer) : Call → Prop
  | .append msg => msg.length ≤ INT_MAX
  | .appendString s => s.length ≤ INT_MAX
  | .haveReadForLen len => 0 ≤ len ∧ len ≤ b.getReadableLen
  | _ => True

/-- The call as an operation on a queue. -/
def Call.op : Call → Fifo.Op UInt8
  | .append msg => .push msg
  | .appendString s => .push s
  | .haveReadForLen len => .pop len.toNat
  | .haveReadAll => .clear
  | .takeAll => .clear

/-- The buffer holds the bytes of the queue. -/
structure Holds (b : Buffer) (h : Fifo.History UInt8) : Prop where
  valid : b.Valid
  content : b.readable = h.content

lemma step_holds (b : Buffer) (h : Fifo.History UInt8) (c : Call) (hb : Holds b h)
    (hc : Allowed b c) : ∃ b', step b c = .ok b' ∧ Holds b' (h.next c.op) := by
  obtain ⟨hv, hr⟩ := hb
  cases c with
  | append msg =>
    obtain ⟨b', happ, hv', hr'⟩ := hv.append msg
    exact ⟨b', happ, hv', by simp [Call.op, hr', hr]⟩
  | appendString s =>
    obtain ⟨b', happ, hv', hr'⟩ := hv.appendString hc
    exact ⟨b', happ, hv', by simp [Call.op, hr', hr]⟩
  | haveReadForLen len =>
    obtain ⟨h0, hle⟩ := hc
    obtain ⟨n, rfl⟩ := Int.eq_ofNat_of_zero_le h0
    rw [← hv.length_readable] at hle
    obtain ⟨hv', hr'⟩ := hv.haveReadForLen (n := n) (by omega)
    exact ⟨_, rfl, hv', by simp [Call.op, hr', hr]⟩
  | haveReadAll =>
    obtain ⟨hv', hr'⟩ := hv.haveReadAll
    exact ⟨_, rfl, hv', by simp [Call.op, hr']⟩
  | takeAll =>
    obtain ⟨hv', hr'⟩ := hv.haveReadAll
    exact ⟨_, rfl, hv', hr'.trans (by simp [Call.op])⟩

/-- **The buffer is a queue of bytes**: after every call of a run its positions are in order and
it holds what was appended, less what was consumed from the front. -/
theorem queue_of_bytes (size : ℕ) (calls : List Call)
    (h : Asks step Allowed (.new size) calls) (pre post : List Call) (hpre : calls = pre ++ post) :
    ∃ b, exec step (.new size) pre = .ok b ∧
      b.readIndex_ ≤ b.writeIndex_ ∧ b.writeIndex_ ≤ b.buffer_.length ∧
      b.peek.take b.getReadableLen =
        (Fifo.history (pre.map Call.op)).put.drop (Fifo.history (pre.map Call.op)).taken := by
  subst hpre
  have hnew : Holds (.new size) Fifo.History.empty := ⟨Buffer.new_valid size, by simp⟩
  obtain ⟨b, hb, hv, hr⟩ := exec_sim (fun h c => h.next c.op) step_holds hnew h.left
  refine ⟨b, hb, hv.read_le, hv.write_le, ?_⟩
  rw [hv.take_peek, hr, Fifo.history, List.foldl_map]
  rfl

/-- A vector of one byte that grows, and then has its live byte moved to the front. -/
theorem queue_of_bytes_three : ∃ b,
    exec step (.new 1) [.append [1, 2], .haveReadForLen 1, .append [3]] = .ok b ∧
      b.readIndex_ ≤ b.writeIndex_ ∧ b.writeIndex_ ≤ b.buffer_.length ∧
      b.peek.take b.getReadableLen = [1, 2, 3].drop 1 := by
  refine queue_of_bytes 1 _ ?_ _ [] (List.append_nil _).symm
  refine asks_cons.mpr ⟨by simp [Allowed, INT_MAX], fun t ht => ?_⟩
  obtain rfl := Except.ok.inj ht
  refine asks_cons.mpr ⟨⟨by norm_num, by decide⟩, fun t ht => ?_⟩
  exact asks_cons.mpr ⟨by simp [Allowed, INT_MAX], fun _ _ => asks_nil⟩

end MuduoZ.BufferQueue
