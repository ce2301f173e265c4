import MuduoZ.Lib.Records
import MuduoZ.LogDelivery

/-!
The log file holds whole messages in their order, under any load.

The buffers written out, those of the round and those in front are, in this order, pieces that
hold whole messages. A round that found too many buffers leaves some of the pieces out, and
`FixedBuffer::append` may leave a message out; neither cuts one.
-/

namespace MuduoZ.LogOrder

open AsyncLogging LogDelivery Runs Records

/-- What is in the buffers, one after the other. -/
def data (ps : List BufferPtr) : List Str := ps.map fun
  | some b => b.data_
  | none => []

/-- What was written out, then what the round holds, then what waits in front. -/
def pieces (a : AsyncLogging) : List Str :=
  a.output ++ data a.bufferBackVec ++ data (a.bufferVector_ ++ [a.bufferCurrent_])

structure Inv (s : Sys) : Prop where
  sound : s.log.Sound s.inRound
  whole : Whole (pieces s.log) (s.appended.map Entry.msg)

lemma data_some (bs : List LogBuffer) : data (bs.map some) = bs.map FixedBuffer.data_ := by
  simp [data]

/-- A buffer takes a message whole or not at all. -/
lemma put_or (b : LogBuffer) (msg : Str) :
    (b.put msg).data_ = b.data_ ∨ (b.put msg).data_ = b.data_ ++ msg := by
  unfold FixedBuffer.put
  split_ifs
  · exact .inr rfl
  · exact .inl (List.append_nil _)

/-- The last piece with a message put into its buffer. -/
lemma whole_put {ps msgs : List Str} {b : LogBuffer} (msg : Str)
    (h : Whole (ps ++ [b.data_]) msgs) : Whole (ps ++ [(b.put msg).data_]) (msgs ++ [msg]) := by
  rcases put_or b msg with hb | hb
  · rw [hb]; exact h.drop msg
  · rw [hb]; exact h.put msg

lemma start_inv : Inv start :=
  ⟨new_sound, whole_nil.empty⟩

lemma append_inv {s s' : Sys} {msg : Message} (hs : Inv s) (h : step s (.append msg) = .ok s') :
    Inv s' := by
  obtain ⟨hsound, hwhole⟩ := hs
  obtain ⟨bs, cur, a', hvec, hcur, happ, hsound', hback, hout, hfront⟩ :=
    append_buffers hsound msg.2
  simp only [step, hcur, deref, happ, bind, Except.bind] at h
  obtain rfl := Except.ok.inj h
  refine ⟨hsound', ?_⟩
  have hold : pieces s.log =
      (s.log.output ++ data s.log.bufferBackVec ++ bs.map FixedBuffer.data_) ++ [cur.data_] := by
    simp [pieces, hvec, hcur, data]
  rw [hold] at hwhole
  rw [List.map_append, List.map_singleton, pieces, hback, hout]
  rcases hfront with ⟨-, hfront⟩ | ⟨-, b, hb, hfront⟩
  · rw [hfront, data_some]
    simpa using whole_put msg.val hwhole
  · rw [hfront, data_some]
    have hempty := hwhole.empty
    rw [← hb] at hempty
    simpa using whole_put msg.val hempty

/-- What is taken from the front is followed by the empty buffer that goes there. -/
lemma collect_inv {s s' : Sys} (hs : Inv s) (hr : s.inRound = false)
    (h : step s .round = .ok s') : Inv s' := by
  obtain ⟨hsound, hwhole⟩ := hs
  rw [hr] at hsound
  obtain ⟨cur, a', hc, hsound', hvec, hcur, hempty, hback, hout⟩ := collect_buffers hsound
  simp only [step, hr, hc, bind, Except.bind] at h
  obtain rfl := Except.ok.inj h
  refine ⟨hsound', ?_⟩
  have hidle := (hsound.idle rfl).2.2
  have hold : pieces s.log = s.log.output ++ data (s.log.bufferVector_ ++
      [s.log.bufferCurrent_]) := by
    simp [pieces, hidle, data]
  have hnew : pieces a' = pieces s.log ++ [[]] := by
    rw [hold, pieces, hout, hback, hvec, hcur]
    simp [data, hempty]
  rw [hnew]
  exact hwhole.empty

/-- Buffers are written out, or dropped. -/
lemma writeOut_inv {s s' : Sys} (hs : Inv s) (hr : s.inRound = true)
    (h : step s .round = .ok s') : Inv s' := by
  obtain ⟨hsound, hwhole⟩ := hs
  rw [hr] at hsound
  obtain ⟨bs, out, a', hback, hsub, -, hw, hsound', hvec, hcur, hnone, hout⟩ :=
    writeOut_buffers hsound
  simp only [step, hr, if_true, hw, bind, Except.bind] at h
  obtain rfl := Except.ok.inj h
  refine ⟨hsound', hwhole.sublist ?_⟩
  rw [pieces, pieces, hvec, hcur, hnone, hout, hback, data_some]
  refine List.Sublist.append ?_ (List.Sublist.refl _)
  rw [List.append_assoc]
  exact List.Sublist.append (List.Sublist.refl _) (by simpa [data] using hsub.map _)

lemma step_inv (s : Sys) (a : Action) (s' : Sys) (hs : Inv s) (h : step s a = .ok s') :
    Inv s' := by
  cases a with
  | append msg => exact append_inv hs h
  | round =>
    cases hr : s.inRound with
    | true => exact writeOut_inv hs hr h
    | false => exact collect_inv hs hr h

/-- **The file never holds a torn, repeated or misplaced message**: at any moment of any run the
outputs so far are together some of the messages, whole and in the order of their `append`; and
no run goes wrong. -/
theorem whole_messages (as : List Action) : ∃ s, exec step start as = .ok s ∧
    ∀ k, ∃ msgs : List Str, msgs.Sublist (s.appended.map Entry.msg) ∧
      (s.log.output.take k).flatten = msgs.flatten := by
  obtain ⟨s, hs, -⟩ := exec_total step_total (s := start) new_sound as
  refine ⟨s, hs, fun k => ?_⟩
  have hinv := exec_inv step_inv start_inv hs
  have hsub : (s.log.output.take k).Sublist (pieces s.log) := by
    rw [pieces, List.append_assoc]
    exact (List.take_sublist _ _).trans (List.sublist_append_left _ _)
  exact (hinv.whole.sublist hsub).flatten

end MuduoZ.LogOrder
