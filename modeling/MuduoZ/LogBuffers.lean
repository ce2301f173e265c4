import MuduoZ.LogDelivery

/-!
The buffers of the asynchronous log never run out.

A round gives its first spare buffer to the front end, and its second one if the front end has
used up its own. Where it has, the front end has filled a buffer besides the current one, and the
round finds two buffers to take back as spares, however many of them it drops.
-/

namespace MuduoZ.LogBuffers

open AsyncLogging LogDelivery Runs

/-- `bufferBackVec` when it is output: too many buffers are erased down to two. -/
def outputVec (vec : List BufferPtr) : List BufferPtr :=
  if 25 < vec.length then vec.take 2 else vec

/-- `bufferBackVec` at the first call of `back()` and `pop_back()`. -/
def spareVec (vec : List BufferPtr) : List BufferPtr :=
  if 2 < (outputVec vec).length then (outputVec vec).take 2 else outputVec vec

/-- `bufferBackVec` at the second call. -/
def secondVec (a : AsyncLogging) : List BufferPtr :=
  if a.bufferBack1 = none then (spareVec a.bufferBackVec).dropLast else spareVec a.bufferBackVec

-- these are the vectors of `writeOut`
example (a : AsyncLogging) : a.writeOut = (do
    let buffers ← (outputVec a.bufferBackVec).mapM deref
    let (back1, vec) ← refill a.bufferBack1 (spareVec a.bufferBackVec)
    let (back2, _) ← refill a.bufferBack2 vec
    .ok { a with
      bufferBack1 := back1, bufferBack2 := back2, bufferBackVec := []
      output := a.output ++ buffers.map FixedBuffer.data_ }) := rfl

/-- No pointer is null, and no vector empty, where the code relies on it. -/
structure Supplied (s : Sys) : Prop where
  current : s.log.bufferCurrent_ ≠ none
  spares : s.inRound = false → s.log.bufferBack1 ≠ none ∧ s.log.bufferBack2 ≠ none
  output : s.inRound = true → ∀ p ∈ outputVec s.log.bufferBackVec, p ≠ none
  first : s.inRound = true → spareVec s.log.bufferBackVec ≠ []
  second : s.inRound = true → s.log.bufferBack2 = none → secondVec s.log ≠ []

variable {s : Sys} {vec : List BufferPtr}

/-- Erasing and resizing leave two buffers, if there are two. -/
lemma spareVec_spec (hne : vec ≠ []) :
    spareVec vec ≠ [] ∧ (2 ≤ vec.length → 2 ≤ (spareVec vec).length) := by
  obtain ⟨hne₁, hlen₁⟩ := two_le_take vec (n := 25) (by omega)
  obtain ⟨hne₂, hlen₂⟩ := two_le_take (outputVec vec) (n := 2) le_rfl
  exact ⟨hne₂ (hne₁ hne), fun h => hlen₂ (hlen₁ h)⟩

lemma outputVec_sub : (outputVec vec).Sublist vec := by
  unfold outputVec
  split_ifs
  · exact List.take_sublist _ _
  · exact List.Sublist.refl _

/-- **Sound buffers suffice.** -/
lemma supplied_of_sound (h : s.log.Sound s.inRound) : Supplied s := by
  obtain ⟨⟨cur, hcur⟩, -, -, -, hidle, hbusy⟩ := h
  refine ⟨by simp [hcur], fun hr => ?_, fun hr p hp => ?_, fun hr => ?_, fun hr hb2 => ?_⟩
  · obtain ⟨⟨b1, h1⟩, ⟨b2, h2⟩, -⟩ := hidle hr
    simp [h1, h2]
  · obtain ⟨bs, hback, -⟩ := hbusy hr
    have hmem := outputVec_sub.subset hp
    rw [hback] at hmem
    obtain ⟨b, -, rfl⟩ := List.mem_map.mp hmem
    simp
  · obtain ⟨bs, hback, hne, -⟩ := hbusy hr
    exact (spareVec_spec (by simpa [hback] using hne)).1
  · obtain ⟨bs, hback, hne, hb1, htwo⟩ := hbusy hr
    have hpos : s.log.bufferBackVec ≠ [] := by simpa [hback] using hne
    have hlen := (spareVec_spec hpos).2 (by simpa [hback] using htwo hb2)
    rw [secondVec, if_pos hb1]
    refine List.length_pos_iff.mp ?_
    rw [List.length_dropLast]
    omega

/-- **The back end never runs out of buffers**, in any interleaving of calls of `append`, with
messages of any lengths that an `int` holds, with the steps of the back end: no step goes wrong, and
in every state what the next step relies on is there. -/
theorem never_runs_out (as : List Action) :
    (∃ s, exec step start as = .ok s) ∧ Along step Supplied start as := by
  refine ⟨(exec_total step_total (s := start) new_sound as).imp fun _ h => h.1,
    fun pre post t _ ht => supplied_of_sound ?_⟩
  obtain ⟨t', ht', hsound⟩ := exec_total step_total (s := start) new_sound pre
  obtain rfl := Except.ok.inj (ht'.symm.trans ht)
  exact hsound

end MuduoZ.LogBuffers
