import MuduoZ.FixedBuffer
import MuduoZ.Lib.Run

/-!
The asynchronous log: front-end threads append messages to a buffer, a back-end thread takes
the full buffers away and writes them to the log file.

A round of the back end is two steps, its critical section and its output. Calls of `append`
come before and between them. Four buffers go round; a pointer is null where its buffer has
been moved away.
-/

namespace MuduoZ

abbrev LogBuffer := FixedBuffer bigBufferSize

/-- What a `Logger` passes on: it takes the length from `getDataLen`, which is an `int`. -/
abbrev Message := { msg : Str // msg.length ≤ INT_MAX }

/-- `std::unique_ptr`. -/
abbrev BufferPtr := Option LogBuffer

/-- The object, the local variables of `run`, and what was passed to `LogFile::output`. -/
structure AsyncLogging where
  bufferCurrent_ : BufferPtr
  bufferNext_ : BufferPtr
  bufferVector_ : List BufferPtr
  bufferBack1 : BufferPtr
  bufferBack2 : BufferPtr
  bufferBackVec : List BufferPtr
  output : List Str
  deriving DecidableEq, Repr

namespace AsyncLogging

def new : AsyncLogging := ⟨some .new, some .new, [], some .new, some .new, [], []⟩

/-- The object behind a pointer. -/
def deref (p : BufferPtr) : Result LogBuffer :=
  match p with
  | some b => .ok b
  | none => .error .null

variable (a : AsyncLogging)

def append (msg : Str) : Result AsyncLogging := do
  let current ← deref a.bufferCurrent_
  if toInt msg.length ≤ current.getRemainLen then
    .ok { a with bufferCurrent_ := some (← current.append msg) }
  else
    let a := { a with bufferVector_ := a.bufferVector_ ++ [a.bufferCurrent_] }
    match a.bufferNext_ with
    | some next => .ok { a with bufferCurrent_ := some (← next.append msg), bufferNext_ := none }
    | none => .ok { a with bufferCurrent_ := some (← FixedBuffer.new.resetCur.append msg) }

/-- The critical section of a round. -/
def collect : Result AsyncLogging := do
  let a := { a with
    bufferBackVec := a.bufferVector_ ++ [a.bufferCurrent_], bufferVector_ := a.bufferBackVec }
  let current ← deref a.bufferBack1
  let a := { a with bufferCurrent_ := some current.resetCur, bufferBack1 := none }
  match a.bufferNext_ with
  | some _ => .ok a
  | none => do
    let next ← deref a.bufferBack2
    .ok { a with bufferNext_ := some next.resetCur, bufferBack2 := none }

/-- `move(bufferBackVec.back())` with `pop_back()`, for a pointer that is null. -/
def refill (p : BufferPtr) (vec : List BufferPtr) : Result (BufferPtr × List BufferPtr) :=
  match p with
  | some b => .ok (some b, vec)
  | none => match vec.getLast? with
    | none => .error .index
    | some last => do .ok (some (← deref last).resetCur, vec.dropLast)

/-- The rest of a round. -/
def writeOut : Result AsyncLogging := do
  let vec := if 25 < a.bufferBackVec.length then a.bufferBackVec.take 2 else a.bufferBackVec
  let buffers ← vec.mapM deref
  let vec := if 2 < vec.length then vec.take 2 else vec
  let (back1, vec) ← refill a.bufferBack1 vec
  let (back2, _) ← refill a.bufferBack2 vec
  .ok { a with
    bufferBack1 := back1, bufferBack2 := back2, bufferBackVec := []
    output := a.output ++ buffers.map FixedBuffer.data_ }

/-- The bytes in the buffers that are there. -/
def contents (ps : List BufferPtr) : Str := ps.flatMap fun
  | some b => b.data_
  | none => []

/-- The bytes that wait for the next round, in the order in which it will take them. -/
def front : Str := contents (a.bufferVector_ ++ [a.bufferCurrent_])

/-- The pointers that are null are those whose buffer is somewhere else: `inRound` says that the
back end is between its critical section and its output. -/
structure Sound (inRound : Bool) : Prop where
  current : ∃ b, a.bufferCurrent_ = some b
  next : ∀ b, a.bufferNext_ = some b → b.data_ = []
  vector : ∃ bs : List LogBuffer, a.bufferVector_ = bs.map some
  nextMoved : a.bufferNext_ = none → a.bufferVector_ ≠ []
  idle : inRound = false → (∃ b, a.bufferBack1 = some b) ∧ (∃ b, a.bufferBack2 = some b) ∧
    a.bufferBackVec = []
  busy : inRound = true → ∃ bs : List LogBuffer, a.bufferBackVec = bs.map some ∧ bs ≠ [] ∧
    a.bufferBack1 = none ∧ (a.bufferBack2 = none → 2 ≤ bs.length)

variable {a}

@[simp] lemma contents_some (bs : List LogBuffer) :
    contents (bs.map some) = (bs.map FixedBuffer.data_).flatten := by
  simp only [contents, List.flatMap_def, List.map_map]
  rfl

lemma new_sound : new.Sound false :=
  ⟨⟨_, rfl⟩, fun b hb => by cases hb; rfl, ⟨[], rfl⟩, (by cases ·),
    fun _ => ⟨⟨_, rfl⟩, ⟨_, rfl⟩, rfl⟩, (by cases ·)⟩

/-- The message is dropped: it has just the length of the room that is left. -/
def Lost (msg : Str) (room : ℤ) : Prop := msg ≠ [] ∧ room = msg.length

lemma put_data {b : LogBuffer} {msg : Str} (hroom : msg.length ≤ b.getRemainLen) :
    (Lost msg b.getRemainLen → (b.put msg).data_ = b.data_) ∧
      (¬ Lost msg b.getRemainLen → (b.put msg).data_ = b.data_ ++ msg) := by
  unfold FixedBuffer.put Lost
  constructor
  · rintro ⟨-, heq⟩
    rw [if_neg (by omega), List.append_nil]
  · intro hl
    split_ifs with hlt
    · rfl
    · have hnil : msg = [] := by
        by_contra hne
        exact hl ⟨hne, by omega⟩
      simp [hnil]

lemma put_empty {b : LogBuffer} {msg : Str} (hb : b.data_ = [])
    (hfit : msg.length ≤ smallBufferSize) : (b.put msg).data_ = msg := by
  unfold smallBufferSize at hfit
  rw [FixedBuffer.put, if_pos, hb]
  · rfl
  · rw [FixedBuffer.getRemainLen, hb]
    simp [bigBufferSize]; omega

/-- The message goes to the current buffer, or to an empty one behind it. -/
lemma append_buffers {inRound : Bool} (h : a.Sound inRound) {msg : Str}
    (hmsg : msg.length ≤ INT_MAX) : ∃ (bs : List LogBuffer) (cur : LogBuffer) (a' : AsyncLogging),
      a.bufferVector_ = bs.map some ∧ a.bufferCurrent_ = some cur ∧ a.append msg = .ok a' ∧
      a'.Sound inRound ∧ a'.bufferBackVec = a.bufferBackVec ∧ a'.output = a.output ∧
      (msg.length ≤ cur.getRemainLen ∧
          a'.bufferVector_ ++ [a'.bufferCurrent_] = (bs ++ [cur.put msg]).map some ∨
        cur.getRemainLen < msg.length ∧ ∃ b : LogBuffer, b.data_ = [] ∧
          a'.bufferVector_ ++ [a'.bufferCurrent_] = (bs ++ [cur, b.put msg]).map some) := by
  obtain ⟨⟨cur, hcur⟩, hnext, ⟨bs, hvec⟩, hmoved, hidle, hbusy⟩ := h
  refine ⟨bs, cur, ?_⟩
  have hvec' : a.bufferVector_ ++ [some cur] = (bs ++ [cur]).map some := by simp [hvec]
  unfold append
  simp only [hcur, deref, FixedBuffer.append_put hmsg, toInt_of_le hmsg, ok_bind]
  by_cases hroom : msg.length ≤ cur.getRemainLen
  · rw [if_pos hroom]
    refine ⟨_, hvec, trivial, rfl, ⟨⟨_, rfl⟩, hnext, ⟨bs, hvec⟩, hmoved, hidle, hbusy⟩, rfl, rfl,
      .inl ⟨hroom, ?_⟩⟩
    simp [hvec]
  · rw [if_neg hroom]
    cases hn : a.bufferNext_ with
    | some next =>
      refine ⟨_, hvec, trivial, rfl, ⟨⟨_, rfl⟩, fun _ hb => absurd hb (by simp), ⟨_, hvec'⟩,
        by simp, hidle, hbusy⟩, rfl, rfl, .inr ⟨not_le.mp hroom, next, hnext next hn, ?_⟩⟩
      simp [hvec]
    | none =>
      refine ⟨_, hvec, trivial, rfl, ⟨⟨_, rfl⟩, fun _ hb => absurd hb (by simp), ⟨_, hvec'⟩,
        by simp, hidle, hbusy⟩, rfl, rfl, .inr ⟨not_le.mp hroom, FixedBuffer.new.resetCur, rfl, ?_⟩⟩
      simp [hvec]

/-- **`append` adds the message to what waits**, or drops it. -/
theorem append_spec {inRound : Bool} (h : a.Sound inRound) {msg : Str}
    (hmsg : msg.length ≤ INT_MAX) : ∃ current a', a.bufferCurrent_ = some current ∧
      a.append msg = .ok a' ∧ a'.Sound inRound ∧
      a'.bufferBackVec = a.bufferBackVec ∧ a'.output = a.output ∧
      (msg.length ≤ smallBufferSize →
        (Lost msg current.getRemainLen → a'.front = a.front) ∧
        (¬ Lost msg current.getRemainLen → a'.front = a.front ++ msg)) := by
  obtain ⟨bs, cur, a', hvec, hcur, happ, hsound, hback, hout, hfront⟩ := append_buffers h hmsg
  refine ⟨cur, a', hcur, happ, hsound, hback, hout, fun hfit => ?_⟩
  have hold : a.front = (bs.map FixedBuffer.data_).flatten ++ cur.data_ := by
    rw [← contents_some, front, hvec, hcur]
    simp [contents]
  rcases hfront with ⟨hroom, hfront⟩ | ⟨hroom, b, hb, hfront⟩
  · obtain ⟨hlost, hkept⟩ := put_data hroom
    constructor <;> intro hl
    · rw [front, hfront, hold, contents_some]
      simp [hlost hl]
    · rw [front, hfront, hold, contents_some]
      simp [hkept hl]
  · refine ⟨fun hl => ?_, fun _ => ?_⟩
    · have := hl.2
      omega
    · rw [front, hfront, hold, contents_some]
      simp [put_empty hb hfit]

/-- The critical section takes the buffers in front, and leaves an empty one. -/
lemma collect_buffers (h : a.Sound false) : ∃ (cur : LogBuffer) (a' : AsyncLogging),
    a.collect = .ok a' ∧ a'.Sound true ∧ a'.bufferVector_ = [] ∧ a'.bufferCurrent_ = some cur ∧
    cur.data_ = [] ∧ a'.bufferBackVec = a.bufferVector_ ++ [a.bufferCurrent_] ∧
    a'.output = a.output := by
  obtain ⟨⟨cur, hcur⟩, hnext, ⟨bs, hvec⟩, hmoved, hidle, -⟩ := h
  obtain ⟨⟨b1, h1⟩, ⟨b2, h2⟩, hback⟩ := hidle rfl
  have hvec' : a.bufferVector_ ++ [a.bufferCurrent_] = (bs ++ [cur]).map some := by
    simp [hvec, hcur]
  refine ⟨b1.resetCur, ?_⟩
  unfold collect
  simp only [h1, h2, deref, bind, Except.bind]
  cases hn : a.bufferNext_ with
  | some next =>
    refine ⟨_, rfl, ⟨⟨_, rfl⟩, hn ▸ hnext, ⟨[], hback⟩, by simp, (by cases ·), fun _ =>
      ⟨_, hvec', by simp, rfl, by simp⟩⟩, hback, rfl, rfl, rfl, rfl⟩
  | none =>
    have hne : bs ≠ [] := by
      rintro rfl
      exact hmoved hn hvec
    refine ⟨_, rfl, ⟨⟨_, rfl⟩, ?_, ⟨[], hback⟩, (by cases ·), (by cases ·), fun _ =>
      ⟨_, hvec', by simp, rfl, fun _ => ?_⟩⟩, hback, rfl, rfl, rfl, rfl⟩
    · rintro b hb; cases hb; rfl
    · have := List.length_pos_iff.mpr hne
      simp; omega

/-- **The critical section takes all that waits**, behind what was written out. -/
theorem collect_spec (h : a.Sound false) : ∃ a', a.collect = .ok a' ∧ a'.Sound true ∧
    a'.front = [] ∧ a'.output.flatten ++ contents a'.bufferBackVec =
      a.output.flatten ++ contents a.bufferBackVec ++ a.front ∧
    a'.bufferBackVec.length = a.bufferVector_.length + 1 := by
  obtain ⟨cur, a', hc, hsound, hvec, hcur, hempty, hback, hout⟩ := collect_buffers h
  have hidle := (h.idle rfl).2.2
  refine ⟨a', hc, hsound, ?_, ?_, by simp [hback]⟩
  · simp [front, hvec, hcur, contents, hempty]
  · rw [hout, hback, hidle, front]
    simp [contents]

lemma mapM_deref (bs : List LogBuffer) : (bs.map some).mapM deref = .ok bs := by
  induction bs with
  | nil => rfl
  | cons b bs ih => rw [List.map_cons, List.mapM_cons, ih]; rfl

lemma refill_none (bs : List LogBuffer) (hne : bs ≠ []) :
    ∃ b, refill none (bs.map some) = .ok (some b, bs.dropLast.map some) := by
  have hlast : (bs.map some).getLast? = some (some (bs.getLast hne)) := by
    rw [List.getLast?_map, List.getLast?_eq_some_getLast hne]; rfl
  refine ⟨(bs.getLast hne).resetCur, ?_⟩
  rw [refill]
  simp only [hlast, List.map_dropLast]
  rfl

/-- Cutting a list down to two elements leaves two, if there are two. -/
lemma two_le_take {α : Type} (xs : List α) {n : ℕ} (hn : 2 ≤ n) :
    (xs ≠ [] → (if n < xs.length then xs.take 2 else xs) ≠ []) ∧
      (2 ≤ xs.length → 2 ≤ (if n < xs.length then xs.take 2 else xs).length) := by
  split_ifs with h
  · have hlen : (xs.take 2).length = 2 := List.length_take_of_le (by omega)
    exact ⟨fun _ => List.length_pos_iff.mp (by omega), fun _ => hlen.ge⟩
  · exact ⟨id, id⟩

/-- A round writes out the buffers it took, or the first two of them. -/
lemma writeOut_buffers (h : a.Sound true) : ∃ (bs out : List LogBuffer) (a' : AsyncLogging),
    a.bufferBackVec = bs.map some ∧ out.Sublist bs ∧ (bs.length ≤ 25 → out = bs) ∧
    a.writeOut = .ok a' ∧ a'.Sound false ∧ a'.bufferVector_ = a.bufferVector_ ∧
    a'.bufferCurrent_ = a.bufferCurrent_ ∧ a'.bufferBackVec = [] ∧
    a'.output = a.output ++ out.map FixedBuffer.data_ := by
  obtain ⟨hcur, hnext, hvec, hmoved, -, hbusy⟩ := h
  obtain ⟨bs, hback, hne, h1, h2⟩ := hbusy rfl
  obtain ⟨hne1, hlen1⟩ := two_le_take bs (n := 25) (by omega)
  have hsub1 : (if 25 < bs.length then bs.take 2 else bs).Sublist bs := by
    split_ifs
    · exact List.take_sublist _ _
    · exact List.Sublist.refl _
  have hfew1 : bs.length ≤ 25 → (if 25 < bs.length then bs.take 2 else bs) = bs :=
    fun hfew => if_neg (by omega)
  have hvec1 : (if 25 < a.bufferBackVec.length then a.bufferBackVec.take 2 else a.bufferBackVec) =
      (if 25 < bs.length then bs.take 2 else bs).map some := by
    rw [hback, List.length_map]; split_ifs <;> simp
  generalize (if 25 < bs.length then bs.take 2 else bs) = bs1 at hne1 hlen1 hsub1 hfew1 hvec1
  obtain ⟨hne2, hlen2⟩ := two_le_take bs1 (n := 2) le_rfl
  have hvec2 : (if 2 < (bs1.map some).length then (bs1.map some).take 2 else bs1.map some) =
      (if 2 < bs1.length then bs1.take 2 else bs1).map some := by
    rw [List.length_map]; split_ifs <;> simp
  generalize (if 2 < bs1.length then bs1.take 2 else bs1) = bs2 at hne2 hlen2 hvec2
  obtain ⟨b1, hr1⟩ := refill_none bs2 (hne2 (hne1 hne))
  obtain ⟨b2, vec, hr2⟩ : ∃ b2 vec, refill a.bufferBack2 (bs2.dropLast.map some) =
      .ok (some b2, vec) := by
    cases hb2 : a.bufferBack2 with
    | some b => exact ⟨b, _, rfl⟩
    | none =>
      have := hlen2 (hlen1 (h2 hb2))
      obtain ⟨b2, hr2⟩ := refill_none bs2.dropLast
        (List.length_pos_iff.mp (by rw [List.length_dropLast]; omega))
      exact ⟨b2, _, hr2⟩
  have hw : a.writeOut = .ok { a with
      bufferBack1 := some b1, bufferBack2 := some b2, bufferBackVec := []
      output := a.output ++ bs1.map FixedBuffer.data_ } := by
    rw [writeOut]
    simp only [hvec1, mapM_deref, bind, Except.bind, hvec2, h1, hr1, hr2]
  exact ⟨bs, bs1, _, hback, hsub1, hfew1, hw, ⟨hcur, hnext, hvec, hmoved,
    fun _ => ⟨⟨b1, rfl⟩, ⟨b2, rfl⟩, rfl⟩, (by cases ·)⟩, rfl, rfl, rfl, rfl⟩

/-- **The output of a round** is all that its critical section took, if that was not too much. -/
theorem writeOut_spec (h : a.Sound true) : ∃ a', a.writeOut = .ok a' ∧ a'.Sound false ∧
    a'.front = a.front ∧ (a.bufferBackVec.length ≤ 25 →
      a'.output.flatten ++ contents a'.bufferBackVec =
        a.output.flatten ++ contents a.bufferBackVec) := by
  obtain ⟨bs, out, a', hback, -, hfew, hw, hsound, hvec, hcur, hnone, hout⟩ := writeOut_buffers h
  refine ⟨a', hw, hsound, by rw [front, front, hvec, hcur], fun hlen => ?_⟩
  rw [hback, List.length_map] at hlen
  rw [hout, hback, hfew hlen, hnone, List.flatten_append, contents_some]
  simp [contents]

end AsyncLogging

end MuduoZ
