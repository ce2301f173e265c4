import MuduoZ.BufferQueue
import MuduoZ.OutputStream

/-!
How much memory a buffer takes.

The vector never shrinks. It grows when the free space and the consumed bytes together are less
than what is appended; else the readable bytes are moved to the front. So it stays below twice what
it has had to hold at once, however much has gone through it.
-/

namespace MuduoZ.BufferMemory

open Runs

/-- The vector grows to no more than twice what it then holds. -/
def Grows (b b' : Buffer) : Prop :=
  b.buffer_.length ≤ b'.buffer_.length ∧
    b'.buffer_.length ≤ max b.buffer_.length (2 * b'.getReadableLen)

variable {b b' : Buffer} {msg : Str} {len : ℕ}

lemma Grows.same (h : b'.buffer_.length = b.buffer_.length) : Grows b b' :=
  ⟨h.ge, h.le.trans (le_max_left _ _)⟩

/-- Space is made by growing beyond all that was consumed, or by moving. -/
lemma makeSpace_length (h : b.Valid) (hs : b.makeSpace len = .ok b') :
    b.buffer_.length ≤ b'.buffer_.length ∧
      b'.buffer_.length ≤ max b.buffer_.length (2 * (b.getReadableLen + len)) := by
  have hr := h.read_le
  have hw := h.write_le
  rw [h.getReadableLen]
  rw [Buffer.makeSpace, Buffer.getWriteableLen, szSub_of_le hw, Buffer.getPreEmptyLen] at hs
  split_ifs at hs with hgrow hin
  · obtain rfl := Except.ok.inj hs
    have hn : b.buffer_.length ≤ b.writeIndex_ + len := by omega
    dsimp only
    rw [Buffer.length_resize _ hn]
    omega
  · obtain rfl := Except.ok.inj hs
    have hl : 0 + b.readable.length ≤ b.buffer_.length := by
      rw [h.length_readable, h.getReadableLen]; omega
    dsimp only
    rw [Buffer.length_overwrite hl]
    exact ⟨le_rfl, le_max_left _ _⟩

lemma append_grows (h : b.Valid) (ha : b.append msg = .ok b') : b'.Valid ∧ Grows b b' := by
  obtain ⟨c, hc, hv, hread⟩ := h.append msg
  obtain rfl := Except.ok.inj (hc.symm.trans ha)
  have hlen : c.getReadableLen = b.getReadableLen + msg.length := by
    rw [← hv.length_readable, hread, List.length_append, h.length_readable]
  refine ⟨hv, ?_⟩
  by_cases hsp : b.getWriteableLen < msg.length
  · obtain ⟨d, hd, -, -, hfit⟩ := h.makeSpace hsp
    have hd' := makeSpace_length h hd
    simp only [Buffer.append, hsp, if_true, hd, ok_bind, hfit] at ha
    obtain rfl := Except.ok.inj ha
    rw [Grows, hlen]
    simpa only [Buffer.length_overwrite hfit] using hd'
  · have hfit : b.writeIndex_ + msg.length ≤ b.buffer_.length := by
      have hw := h.write_le
      rw [Buffer.getWriteableLen, szSub_of_le hw] at hsp
      omega
    obtain rfl := Except.ok.inj ((Buffer.append_inPlace hfit).symm.trans ha)
    exact .same (Buffer.length_overwrite hfit)

/-! ### The calls of a buffer -/

open BufferQueue (Call Allowed)

lemma call_grows (b : Buffer) (c : Call) (b' : Buffer) (h : b.Valid) (hc : Allowed b c)
    (hs : BufferQueue.step b c = .ok b') : b'.Valid ∧ Grows b b' := by
  cases c with
  | append msg => exact append_grows h hs
  | appendString s =>
    obtain ⟨c, hc', hv, -⟩ := h.appendString hc
    obtain rfl := Except.ok.inj (hc'.symm.trans hs)
    simp only [BufferQueue.step, Buffer.appendString] at hs
    split_ifs at hs
    exact append_grows h hs
  | haveReadForLen len =>
    obtain ⟨h0, hle⟩ := hc
    obtain ⟨n, rfl⟩ := Int.eq_ofNat_of_zero_le h0
    rw [← h.length_readable] at hle
    obtain rfl := Except.ok.inj hs
    exact ⟨(h.haveReadForLen (n := n) (by omega)).1, .same rfl⟩
  | haveReadAll | takeAll =>
    obtain rfl := Except.ok.inj hs
    exact ⟨h.haveReadAll.1, .same rfl⟩

lemma call_total (b : Buffer) (c : Call) (h : b.Valid) (hc : Allowed b c) :
    ∃ b', BufferQueue.step b c = .ok b' := by
  obtain ⟨b', hb', -⟩ := BufferQueue.step_holds b ⟨b.readable, 0, Nat.zero_le _⟩ c ⟨h, rfl⟩ hc
  exact ⟨b', hb'⟩

/-- **The memory of a buffer is bounded by what it has held at once**: in a run of any length in
which it never holds more than `peak` bytes, its vector is not longer than at the beginning, or
than twice `peak`. -/
theorem vector_le {size peak : ℕ} {calls : List Call}
    (h : Asks BufferQueue.step Allowed (.new size) calls)
    (hpeak : Along BufferQueue.step (fun b => b.getReadableLen ≤ peak) (.new size) calls) :
    ∃ b, exec BufferQueue.step (.new size) calls = .ok b ∧
      size ≤ b.buffer_.length ∧ b.buffer_.length ≤ max size (2 * peak) := by
  have hlen : (Buffer.new size).buffer_.length = size := by simp [Buffer.new]
  have hstep : ∀ b c, b.Valid ∧ size ≤ b.buffer_.length → Allowed b c →
      ∃ b', BufferQueue.step b c = .ok b' ∧ b'.Valid ∧ size ≤ b'.buffer_.length :=
    fun b c hb hc => by
      obtain ⟨b', hs⟩ := call_total b c hb.1 hc
      obtain ⟨hv, hle, -⟩ := call_grows b c b' hb.1 hc hs
      exact ⟨b', hs, hv, hb.2.trans hle⟩
  obtain ⟨b, hb, hv, hle⟩ := exec_total_of_asks hstep ⟨Buffer.new_valid size, hlen.ge⟩ h
  refine ⟨b, hb, hle, ?_⟩
  have hpeak' : Along BufferQueue.step (fun b => 2 * b.getReadableLen ≤ 2 * peak) (.new size)
      calls := fun pre post t he ht => Nat.mul_le_mul_left 2 (hpeak pre post t he ht)
  have hmax := exec_le_max (f := fun b : Buffer => b.buffer_.length)
    (fun b c b' hv hc hs => (call_grows b c b' hv hc hs).imp_right And.right)
    (Buffer.new_valid size) h hpeak' hb
  rwa [hlen] at hmax

/-- A message of three bytes, of which two are consumed, and one of four: the vector grows twice. -/
theorem vector_le_two : ∃ b,
    exec BufferQueue.step (.new 1) [.append [1, 2, 3], .haveReadForLen 2, .append [4, 5, 6, 7]] =
      .ok b ∧ 1 ≤ b.buffer_.length ∧ b.buffer_.length ≤ max 1 (2 * 5) := by
  refine vector_le ?_ (by decide)
  refine asks_cons.mpr ⟨by simp [Allowed, INT_MAX], fun t ht => ?_⟩
  obtain rfl := Except.ok.inj ht
  refine asks_cons.mpr ⟨⟨by norm_num, by decide⟩, fun t ht => ?_⟩
  exact asks_cons.mpr ⟨by simp [Allowed, INT_MAX], fun _ _ => asks_nil⟩

/-! ### The output buffer of a connection -/

open Connection OutputStream

variable {c c' : Connection} {written : Option ℕ}

/-- The end of `sendInLoop`. -/
lemma appendOutput_grows {d : Connection} {remain : Str} (h : d.outputBuffer_.Valid)
    (hs : d.appendOutput remain = .ok c') :
    c'.outputBuffer_.Valid ∧ Grows d.outputBuffer_ c'.outputBuffer_ := by
  obtain ⟨out, hout, hs⟩ := bind_ok_iff.mp hs
  have hc' : c'.outputBuffer_ = out := by
    obtain rfl := Except.ok.inj hs
    split_ifs <;> rfl
  exact hc' ▸ append_grows h hout

/-- The output buffer is appended to once, or not at all. -/
lemma sendInLoop_grows (h : c.outputBuffer_.Valid) (hs : c.sendInLoop msg written = .ok c') :
    c'.outputBuffer_.Valid ∧ Grows c.outputBuffer_ c'.outputBuffer_ := by
  have hend : ∀ x : Connection × ℕ × Bool, x.1.outputBuffer_ = c.outputBuffer_ →
      (if !x.2.2 && x.2.1 < msg.length then x.1.appendOutput (msg.drop x.2.1) else .ok x.1) =
        .ok c' → c'.outputBuffer_.Valid ∧ Grows c.outputBuffer_ c'.outputBuffer_ := by
    intro x hx hs
    rw [← hx] at h ⊢
    split_ifs at hs
    · exact appendOutput_grows h hs
    · obtain rfl := Except.ok.inj hs
      exact ⟨h, .same rfl⟩
  unfold Connection.sendInLoop at hs
  dsimp only at hs
  split at hs
  · refine hend _ ?_ hs
    cases written
    · rfl
    · dsimp only
      split_ifs <;> rfl
  · exact hend (c.emit (.handed msg), 0, false) rfl hs

lemma handleWrite_grows (c : Connection) (written : Option ℕ) :
    Grows c.outputBuffer_ (c.handleWrite written).outputBuffer_ := by
  refine .same ?_
  unfold Connection.handleWrite haveWritten writeDone shutDownInLoop
  dsimp only
  split_ifs <;> rfl

lemma step_output (c : Connection) (op : Op) (c' : Connection) (h : c.outputBuffer_.Valid)
    (_ : True) (hs : OutputStream.step c op = .ok c') : c'.outputBuffer_.Valid ∧
      c'.outputBuffer_.buffer_.length ≤
        max c.outputBuffer_.buffer_.length (2 * c'.outputBuffer_.getReadableLen) := by
  cases op with
  | sendInLoop msg written => exact (sendInLoop_grows h hs).imp_right And.right
  | handleWrite written =>
    obtain rfl := Except.ok.inj hs
    exact ⟨handleWrite_valid h written, (handleWrite_grows c written).2⟩

/-- **What a slow reader costs**: as long as no more than `peak` bytes wait in its output buffer, a
connection keeps no more than twice as many for it, beside the first 1024. -/
theorem outputBuffer_le (received sent : Bool) {peak : ℕ} {ops : List Op}
    (hpeak : Along OutputStream.step (fun c => c.outputBuffer_.getReadableLen ≤ peak)
      (established received sent) ops) :
    ∃ c, exec OutputStream.step (established received sent) ops = .ok c ∧
      c.outputBuffer_.buffer_.length ≤ max 1024 (2 * peak) := by
  have hvalid := (established_inv received sent).valid
  have hlen : (established received sent).outputBuffer_.buffer_.length = 1024 :=
    List.length_replicate
  obtain ⟨c, hc, -⟩ := exec_total step_total hvalid ops
  refine ⟨c, hc, ?_⟩
  have hpeak' : Along OutputStream.step (fun c => 2 * c.outputBuffer_.getReadableLen ≤ 2 * peak)
      (established received sent) ops :=
    fun pre post t he ht => Nat.mul_le_mul_left 2 (hpeak pre post t he ht)
  have hmax := exec_le_max (I := fun c : Connection => c.outputBuffer_.Valid)
    (f := fun c : Connection => c.outputBuffer_.buffer_.length) step_output hvalid
    (fun _ _ _ _ _ _ => trivial) hpeak' hc
  rwa [hlen] at hmax

/-- The socket takes 100 bytes of 1500, and the vector grows to hold the others. -/
def slowReader : List Op :=
  [.sendInLoop (List.replicate 1500 7) (some 100), .handleWrite (some 1000)]

theorem outputBuffer_le_grown :
    ∃ c, exec OutputStream.step (established true false) slowReader = .ok c ∧
      c.outputBuffer_.buffer_.length = 1400 ∧
      c.outputBuffer_.buffer_.length ≤ max 1024 (2 * 1400) := by
  have hpeak : Along OutputStream.step (fun c => c.outputBuffer_.getReadableLen ≤ 1400)
      (established true false) slowReader := by decide +kernel
  obtain ⟨c, hc, hle⟩ := outputBuffer_le true false hpeak
  have hlen : (exec OutputStream.step (established true false) slowReader).toOption.map
      (·.outputBuffer_.buffer_.length) = some 1400 := by decide +kernel
  rw [hc] at hlen
  exact ⟨c, hc, Option.some.inj hlen, hle⟩

end MuduoZ.BufferMemory
