import MuduoZ.Buffer

/-!
Reading into a buffer in a loop.

`vec[0]` is set up once, in front of the loop, while every block moves the writing position or
makes the vector grow. What is read is stored right as long as `vec[0]` is the free space behind
the readable bytes.
-/

namespace MuduoZ.ReadBlocks

open Buffer

/-- A count that one `readv` into `room` free bytes can give. -/
def Delivered (room n : ℕ) : Prop := 0 < n ∧ n ≤ room + if room < 65536 then 65536 else 0

/-- However the reading ends, the blocks have been added to the readable bytes and counted. -/
def Stores (b : Buffer) (ds : List Str) : Prop :=
  ∀ e ∈ [ReadResult.eof, .failed], ∃ b', b.readFd (ds.map .data ++ [e]) =
    .ok (b', ds.flatten.length) ∧ b'.Valid ∧ b'.readable = b.readable ++ ds.flatten

/-- Every block but the last leaves `vec[0]` right. With `r` consumed bytes in front, that is a
block that fills the free space and is as long as these, so that the bytes that move to the front
end where they ended; or one that makes a full vector grow. -/
def InStep (room : ℕ) : ℕ → List ℕ → Prop
  | r, n :: m :: ns =>
    (room < n ∧ n = r ∧ InStep room 0 (m :: ns)) ∨ (room = 0 ∧ r < n ∧ InStep room r (m :: ns))
  | _, _ => True

/-! ### One block -/

/-- What the loop does of one block. -/
def lay (size base room : ℕ) (b : Buffer) (d : Str) : Result Buffer := do
  let b ← b.fill size base (d.take room)
  b.advance room (toInt d.length) (d.drop room)

variable {size base room : ℕ} {b b' : Buffer} {d : Str} {sum : ℤ} {rs : List ReadResult}

lemma readLoop_data (hd : Delivered room d.length) (hc : 0 < toInt d.length) :
    readLoop size base room b sum (.data d :: rs) =
      (do let b ← lay size base room b d
          readLoop size base room b (sum + toInt d.length) rs) := by
  rw [readLoop, List.take_of_length_le hd.2, lay]
  simp only [hc.not_ge, if_false, bind_assoc]

lemma lay_in (hn : d.length ≤ room) : lay size base room b d = (do
      let b ← b.fill size base d
      .ok { b with writeIndex_ := szAdd b.writeIndex_ (toInt d.length) }) := by
  have hle : toInt d.length ≤ room := (toInt_le _).trans (by exact_mod_cast hn)
  rw [lay, List.take_of_length_le hn]
  simp only [advance, hle, if_true]

/-- A block that needs `buf` is not longer than what `int` counts. -/
lemma Delivered.int (hd : Delivered room d.length) (hn : room < d.length) :
    d.length ≤ INT_MAX := by
  have := hd.2
  unfold INT_MAX
  split_ifs at this <;> omega

lemma lay_over (hd : Delivered room d.length) (hn : room < d.length) :
    lay size base room b d = (do
      let b ← b.fill size base (d.take room)
      append { b with writeIndex_ := b.buffer_.length } (d.drop room)) := by
  have hgt : ¬ toInt d.length ≤ room := by
    rw [toInt_of_le (hd.int hn)]; exact_mod_cast hn.not_ge
  simp only [lay, advance, hgt, if_false]

/-! ### Blocks that are stored right -/

/-- `vec[0]` is the free space. -/
structure Ready (size base room : ℕ) (b : Buffer) : Prop where
  valid : b.Valid
  free : b.buffer_.length = b.writeIndex_ + room
  place : room = 0 ∨ b.buffer_.length = size ∧ b.writeIndex_ = base

lemma ready (hb : b.Valid) : Ready b.buffer_.length b.writeIndex_ b.getWriteableLen b := by
  have := hb.write_le
  refine ⟨hb, ?_, .inr ⟨rfl, rfl⟩⟩
  rw [getWriteableLen, szSub_of_le this]
  omega

lemma overwrite_nil (xs : Str) (i : ℕ) : overwrite xs i [] = xs := by simp [overwrite]

lemma append_nil (hw : b.writeIndex_ ≤ b.buffer_.length) : b.append [] = .ok b := by
  rw [append_inPlace (by simpa using hw), overwrite_nil]
  rfl

lemma Ready.fill (h : Ready size base room b) (hd : d.length ≤ room) :
    b.fill size base d = .ok { b with buffer_ := overwrite b.buffer_ b.writeIndex_ d } := by
  have hfree := h.free
  rcases h.place with rfl | ⟨hs, rfl⟩
  · obtain rfl : d = [] := by simpa using hd
    simp [Buffer.fill, overwrite_nil]
  · rw [Buffer.fill, if_neg]
    rintro ⟨-, hne | hlt⟩
    · exact hne hs
    · omega

/-- A block is appended, first what there is room for. -/
lemma Ready.lay_eq (h : Ready size base room b) (hd : Delivered room d.length)
    (hi : d.length ≤ INT_MAX) : lay size base room b d = (do
      let b ← b.append (d.take room)
      b.append (d.drop room)) := by
  have hfree := h.free
  have htake : (d.take room).length ≤ room := List.length_take_le ..
  rw [append_inPlace (by omega)]
  rcases le_or_gt d.length room with hn | hn
  · rw [List.take_of_length_le hn, List.drop_eq_nil_of_le hn, lay_in hn, h.fill hn]
    have hl : (overwrite b.buffer_ b.writeIndex_ d).length = b.buffer_.length :=
      length_overwrite (by omega)
    simp only [toInt_of_le hi, szAdd_natCast, ok_bind]
    rw [append_nil (by simp only [hl]; omega)]
  · rw [lay_over hd hn, h.fill htake]
    have hl : (overwrite b.buffer_ b.writeIndex_ (d.take room)).length = b.buffer_.length :=
      length_overwrite (by omega)
    have hr : (d.take room).length = room := List.length_take_of_le hn.le
    simp only [ok_bind, hl, hr, hfree]

/-- What a block leaves of a buffer where it is stored right. -/
structure Laid (room : ℕ) (b : Buffer) (d : Str) (b' : Buffer) : Prop where
  valid : b'.Valid
  readable : b'.readable = b.readable ++ d
  short : d.length ≤ room → b' = { b with
    buffer_ := overwrite b.buffer_ b.writeIndex_ d, writeIndex_ := b.writeIndex_ + d.length }
  grown : room < d.length → b.readIndex_ < d.length - room →
    b'.buffer_.length = b.buffer_.length + (d.length - room) ∧
      b'.writeIndex_ = b'.buffer_.length ∧ b'.readIndex_ = b.readIndex_
  moved : room < d.length → d.length - room ≤ b.readIndex_ →
    b'.buffer_.length = b.buffer_.length ∧ b'.readIndex_ = 0 ∧
      b'.writeIndex_ + b.readIndex_ = b.writeIndex_ + d.length

lemma Ready.lay (h : Ready size base room b) (hd : Delivered room d.length)
    (hi : d.length ≤ INT_MAX) : ∃ b', lay size base room b d = .ok b' ∧ Laid room b d b' := by
  have hfree := h.free
  have htake : (d.take room).length ≤ room := List.length_take_le ..
  have hc := @append_inPlace b (d.take room) (by omega)
  obtain ⟨c, hc', hv, hr⟩ := h.valid.append (d.take room)
  obtain ⟨b', hb', hv', hr'⟩ := hv.append (d.drop room)
  have hl : (overwrite b.buffer_ b.writeIndex_ (d.take room)).length = b.buffer_.length :=
    length_overwrite (by omega)
  refine ⟨b', by rw [h.lay_eq hd hi, hc', ok_bind, hb'], hv', ?_, fun hn => ?_, fun hn hg => ?_,
    fun hn hm => ?_⟩
  · rw [hr', hr, List.append_assoc, List.take_append_drop]
  all_goals obtain rfl := Except.ok.inj (hc'.symm.trans hc)
  · rw [List.drop_eq_nil_of_le hn, append_nil hv.write_le] at hb'
    rw [List.take_of_length_le hn] at hb'
    exact (Except.ok.inj hb').symm
  all_goals
    have hroom : (d.take room).length = room := List.length_take_of_le hn.le
    have hfull : b.writeIndex_ + (d.take room).length = b.buffer_.length := by omega
  · rw [append_grow (by simp only [hl, hfull]) (by simpa using hg)] at hb'
    obtain rfl := Except.ok.inj hb'
    simp [hl]
  · have hpos : d.drop room ≠ [] := by simpa using hn
    have hle := h.valid.read_le
    obtain ⟨c, hc, hl', hw', hr'⟩ := append_move (b := { b with
        buffer_ := overwrite b.buffer_ b.writeIndex_ (d.take room)
        writeIndex_ := b.writeIndex_ + (d.take room).length })
      (by simp only [hl, hfull]) hpos (by simpa using hm) (by simp only [hl]; omega)
    obtain rfl := Except.ok.inj (hb'.symm.trans hc)
    simp only [hl, List.length_drop] at hl' hw'
    exact ⟨hl', hr', by omega⟩

/-- A block in step leaves `vec[0]` right. -/
lemma Laid.ready_moved (h : Ready size base room b) (hl : Laid room b d b') (hn : room < d.length)
    (hr : d.length = b.readIndex_) : Ready size base room b' ∧ b'.readIndex_ = 0 := by
  have hfree := h.free
  obtain ⟨hlen, hz, hw⟩ := hl.moved hn (by omega)
  have hw' : b'.writeIndex_ = b.writeIndex_ := by omega
  exact ⟨⟨hl.valid, by rw [hlen, hw', hfree], by rw [hlen, hw']; exact h.place⟩, hz⟩

lemma Laid.ready_grown (hl : Laid 0 b d b') (hr : b.readIndex_ < d.length) :
    Ready size base 0 b' ∧ b'.readIndex_ = b.readIndex_ := by
  obtain ⟨-, hw, hr'⟩ := hl.grown (by omega) (by omega)
  exact ⟨⟨hl.valid, hw.symm, .inl rfl⟩, hr'⟩

/-! ### The loop -/

/-- The rest of the loop adds the blocks and counts them. -/
def Stored (size base room : ℕ) (b : Buffer) (sum : ℤ) (ds : List Str) (e : ReadResult) : Prop :=
  ∃ b', readLoop size base room b sum (ds.map .data ++ [e]) =
    .ok (b', sum + ds.flatten.length) ∧ b'.Valid ∧ b'.readable = b.readable ++ ds.flatten

variable {ds : List Str} {e : ReadResult} {ns : List ℕ}

lemma stored_nil (hb : b.Valid) (he : e ∈ [ReadResult.eof, .failed]) :
    Stored size base room b sum [] e := by
  refine ⟨b, ?_, hb, by simp⟩
  have : e = .eof ∨ e = .failed := by simpa using he
  rcases this with rfl | rfl <;> simp [readLoop]

lemma pos_of_le {n : ℕ} (hd : Delivered room n) (hi : n ≤ INT_MAX) : 0 < toInt n := by
  rw [toInt_of_le hi]; exact_mod_cast hd.1

lemma stored_cons (hd : Delivered room d.length) (hi : d.length ≤ INT_MAX)
    (hl : lay size base room b d = .ok b') (hr : b'.readable = b.readable ++ d) :
    Stored size base room b sum (d :: ds) e ↔
      Stored size base room b' (sum + d.length) ds e := by
  have hflat : ((d :: ds).flatten.length : ℤ) = d.length + ds.flatten.length := by simp
  unfold Stored
  rw [List.map_cons, List.cons_append, readLoop_data hd (pos_of_le hd hi), hl, ok_bind,
    toInt_of_le hi, hflat, ← add_assoc, hr]
  simp

lemma stored_of_inStep (h : Ready size base room b) (hd : ∀ d ∈ ds, Delivered room d.length)
    (hi : ∀ d ∈ ds, d.length ≤ INT_MAX) (hs : InStep room b.readIndex_ (ds.map List.length))
    (he : e ∈ [ReadResult.eof, .failed]) : Stored size base room b sum ds e := by
  induction ds generalizing b sum with
  | nil => exact stored_nil h.valid he
  | cons d ds ih =>
    obtain ⟨hd1, hds⟩ := List.forall_mem_cons.mp hd
    obtain ⟨hi1, his⟩ := List.forall_mem_cons.mp hi
    obtain ⟨b', hlay, hl⟩ := h.lay hd1 hi1
    rw [stored_cons hd1 hi1 hlay hl.readable]
    cases ds with
    | nil => exact stored_nil hl.valid he
    | cons d' ds =>
      rcases hs with ⟨hn, hr, hs⟩ | ⟨rfl, hr, hs⟩
      · obtain ⟨hready, hz⟩ := hl.ready_moved h hn hr
        exact ih hready hds his (hz ▸ hs)
      · obtain ⟨hready, hz⟩ := hl.ready_grown hr
        exact ih hready hds his (hz ▸ hs)

/-- What is counted is at most what was read, and less if a count does not fit an `int`. -/
lemma readLoop_count {k : ℤ} (hd : ∀ d ∈ ds, Delivered room d.length)
    (he : e ∈ [ReadResult.eof, .failed])
    (h : readLoop size base room b sum (ds.map .data ++ [e]) = .ok (b', k)) :
    k ≤ sum + ds.flatten.length ∧
      (k = sum + ds.flatten.length → ∀ d ∈ ds, d.length ≤ INT_MAX) := by
  induction ds generalizing b sum with
  | nil =>
    have : e = .eof ∨ e = .failed := by simpa using he
    rcases this with rfl | rfl <;> simp [readLoop] at h <;> simp [h.2]
  | cons d ds ih =>
    obtain ⟨hd1, hds⟩ := List.forall_mem_cons.mp hd
    have hflat : ((d :: ds).flatten.length : ℤ) = d.length + ds.flatten.length := by simp
    have hpos : (0 : ℤ) < d.length := by exact_mod_cast hd1.1
    by_cases hc : 0 < toInt d.length
    · rw [List.map_cons, List.cons_append, readLoop_data hd1 hc] at h
      obtain ⟨b1, -, h⟩ := bind_ok_iff.mp h
      obtain ⟨hle, himp⟩ := ih hds h
      have hint := toInt_le d.length
      refine ⟨by omega, fun hk => List.forall_mem_cons.mpr ⟨?_, himp (by omega)⟩⟩
      by_contra hgt
      have := toInt_lt_of_gt (not_le.mp hgt)
      omega
    · rw [List.map_cons, List.cons_append, readLoop, List.take_of_length_le hd1.2] at h
      obtain ⟨b1, -, h⟩ := bind_ok_iff.mp h
      rw [if_pos (not_lt.mp hc)] at h
      obtain ⟨-, rfl⟩ := Prod.mk.inj (Except.ok.inj h)
      exact ⟨by omega, fun hk => by omega⟩

/-! ### A block behind one out of step

Each time the bytes of the blocks are chosen so that what is stored cannot be what was read. -/

/-- What the next block lays over the first byte of a block is all that counts. -/
lemma overwrite_first {xs : Str} {i : ℕ} (hi : i ≤ xs.length) (x y z : UInt8) (ys zs : Str) :
    overwrite (overwrite xs i (x :: ys)) i (z :: zs) =
      overwrite (overwrite xs i (y :: ys)) i (z :: zs) := by
  have hlen : (xs.take i).length = i := List.length_take_of_le hi
  have hx : ∀ x, overwrite (overwrite xs i (x :: ys)) i (z :: zs) =
      xs.take i ++ z :: zs ++ (ys ++ xs.drop (i + (ys.length + 1))).drop zs.length := by
    intro x
    have hdrop : (xs.take i ++ x :: ys ++ xs.drop (i + (ys.length + 1))).drop
        (i + (zs.length + 1)) = (ys ++ xs.drop (i + (ys.length + 1))).drop zs.length := by
      rw [List.append_assoc, ← List.drop_drop, List.drop_append_of_le_length hlen.ge,
        List.drop_of_length_le hlen.le]
      simp
    simp only [overwrite, List.length_cons, hdrop]
    rw [List.append_assoc (xs.take i), List.take_append_of_le_length hlen.ge,
      List.take_of_length_le hlen.le]
  rw [hx x, hx y]

lemma lay_first (hroom : 0 < room) {xs : Str} (hb : base ≤ xs.length) (x y z : UInt8)
    (ys zs : Str) (w r : ℕ) :
    lay size base room ⟨overwrite xs base (x :: ys), w, r⟩ (z :: zs) =
      lay size base room ⟨overwrite xs base (y :: ys), w, r⟩ (z :: zs) := by
  obtain ⟨room, rfl⟩ := Nat.exists_eq_succ_of_ne_zero hroom.ne'
  have hlen : (overwrite xs base (x :: ys)).length = (overwrite xs base (y :: ys)).length := by
    simp [overwrite]
  have hfill : fill size base ⟨overwrite xs base (x :: ys), w, r⟩ (z :: zs.take room) =
      fill size base ⟨overwrite xs base (y :: ys), w, r⟩ (z :: zs.take room) := by
    unfold Buffer.fill
    simp only [overwrite_first hb x y]
    exact if_congr (by rw [hlen]) rfl rfl
  rw [lay, lay, List.take_succ_cons, hfill]

/-- Two blocks in place: the second is laid over the first. -/
lemma not_stored_short (h : Ready size base room b) {n m : ℕ} (hn : Delivered room n)
    (hm : Delivered room m) (hi : n ≤ INT_MAX) (him : m ≤ INT_MAX) (hle : n ≤ room)
    (rest : List Str) : ∃ d d' : Str, d.length = n ∧ d'.length = m ∧
      ¬ Stored size base room b sum (d :: d' :: rest) e := by
  obtain ⟨n, rfl⟩ := Nat.exists_eq_succ_of_ne_zero hn.1.ne'
  obtain ⟨m, rfl⟩ := Nat.exists_eq_succ_of_ne_zero hm.1.ne'
  have hroom : 0 < room := by omega
  have hbase : b.writeIndex_ = base := by
    rcases h.place with rfl | ⟨-, rfl⟩
    · omega
    · rfl
  have hb : base ≤ b.buffer_.length := hbase ▸ h.valid.write_le
  -- the buffer after a first block that begins with `x`
  let after (x : UInt8) : Buffer :=
    ⟨overwrite b.buffer_ base (x :: List.replicate n 0), base + (n + 1), b.readIndex_⟩
  have hlay : ∀ x, lay size base room b (x :: List.replicate n 0) = .ok (after x) ∧
      (after x).readable = b.readable ++ x :: List.replicate n 0 := by
    intro x
    obtain ⟨b', hlay, hl⟩ := h.lay (d := x :: List.replicate n 0) (by simpa using hn)
      (by simpa using hi)
    have hb' := hl.short (by simpa using hle)
    simp only [hbase, List.length_cons, List.length_replicate] at hb'
    subst hb'
    exact ⟨hlay, hl.readable⟩
  by_contra hall
  push Not at hall
  have hs : ∀ x, Stored size base room (after x) (sum + (n + 1 : ℕ))
      ((0 :: List.replicate m 0) :: rest) e := by
    intro x
    have := hall (x :: List.replicate n 0) (0 :: List.replicate m 0) (by simp) (by simp)
    rw [stored_cons (by simpa using hn) (by simpa using hi) (hlay x).1 (hlay x).2] at this
    simpa using this
  obtain ⟨b0, h0, -, hr0⟩ := hs 0
  obtain ⟨b1, h1, -, hr1⟩ := hs 1
  have hd' : Delivered room (0 :: List.replicate m (0 : UInt8)).length := by simpa using hm
  have hc : 0 < toInt (0 :: List.replicate m (0 : UInt8)).length :=
    pos_of_le hd' (by simpa using him)
  rw [List.map_cons, List.cons_append, readLoop_data hd' hc] at h0 h1
  rw [lay_first hroom hb 0 1, h1] at h0
  obtain rfl := (Prod.mk.inj (Except.ok.inj h0)).1
  rw [hr1, (hlay 0).2, (hlay 1).2] at hr0
  simp at hr0

/-- A block behind one that made the vector grow goes to the old vector. -/
lemma not_stored_grown (hroom : 0 < room) (hb : b.buffer_.length ≠ size)
    (hd : Delivered room d.length) (hi : d.length ≤ INT_MAX) :
    ¬ Stored size base room b sum (d :: ds) e := by
  have htake : d.take room ≠ [] := by
    have := hd.1
    rw [← List.length_pos_iff, List.length_take]
    omega
  rintro ⟨b', h, -⟩
  rw [List.map_cons, List.cons_append, readLoop_data hd (pos_of_le hd hi), lay, Buffer.fill,
    if_pos ⟨htake, .inl hb⟩] at h
  simp at h

/-- The bytes are at the front, and that at `p` is `x`. -/
def Stuck (p : ℕ) (x : UInt8) (b : Buffer) : Prop := b.readIndex_ = 0 ∧ b.buffer_[p]? = some x

variable {p : ℕ} {x : UInt8}

lemma overwrite_behind {xs : Str} (hp : p < base) (hx : xs[p]? = some x) :
    (overwrite xs base d)[p]? = some x := by
  have hlt := (List.getElem?_eq_some_iff.mp hx).1
  rw [overwrite, List.append_assoc, List.getElem?_append_left (by simp; omega),
    List.getElem?_take_of_lt hp, hx]

lemma overwrite_at {xs : Str} (hb : base ≤ xs.length) :
    (overwrite xs base (x :: d))[base]? = some x := by
  have hlen : (xs.take base).length = base := List.length_take_of_le hb
  rw [overwrite, List.append_assoc, List.getElem?_append_right hlen.le, hlen]
  simp

/-- A block changes nothing behind `vec[0]`, and puts its first byte there. -/
lemma fill_stuck (hr : b.readIndex_ = 0) (h : b.fill size base (d.take room) = .ok b')
    (hx : (room = 0 ∨ p < base) ∧ b.buffer_[p]? = some x ∨
      0 < room ∧ p = base ∧ d.head? = some x) : Stuck p x b' := by
  unfold Buffer.fill at h
  split_ifs at h with hout
  obtain rfl := Except.ok.inj h
  refine ⟨hr, ?_⟩
  rcases hx with ⟨rfl | hp, hx⟩ | ⟨hroom, rfl, hx⟩
  · simpa [overwrite_nil] using hx
  · exact overwrite_behind hp hx
  · obtain ⟨ys, rfl⟩ := List.head?_eq_some_iff.mp hx
    obtain ⟨room, rfl⟩ := Nat.exists_eq_succ_of_ne_zero hroom.ne'
    rw [List.take_succ_cons] at hout ⊢
    have hlen : p ≤ b.buffer_.length := by
      by_contra hgt
      refine hout ⟨by simp, ?_⟩
      by_cases hs : b.buffer_.length = size
      · right; simp only [List.length_cons]; omega
      · exact .inl hs
    exact overwrite_at hlen

lemma lay_stuck (hr : b.readIndex_ = 0) (hd : Delivered room d.length)
    (h : lay size base room b d = .ok b')
    (hx : (room = 0 ∨ p < base) ∧ b.buffer_[p]? = some x ∨
      0 < room ∧ p = base ∧ d.head? = some x) : Stuck p x b' := by
  rcases le_or_gt d.length room with hn | hn
  · rw [lay_in hn] at h
    obtain ⟨c, hc, h⟩ := bind_ok_iff.mp h
    obtain rfl := Except.ok.inj h
    rw [← List.take_of_length_le hn] at hc
    obtain ⟨hz, hx⟩ := fill_stuck hr hc hx
    exact ⟨hz, hx⟩
  · rw [lay_over hd hn] at h
    obtain ⟨c, hc, h⟩ := bind_ok_iff.mp h
    obtain ⟨hz, hx⟩ := fill_stuck hr hc hx
    have hpos : c.readIndex_ < (d.drop room).length := by rw [hz, List.length_drop]; omega
    have hgrow := @append_grow { c with writeIndex_ := c.buffer_.length } (d.drop room) rfl hpos
    obtain rfl := Except.ok.inj (hgrow.symm.trans h)
    have hlt := (List.getElem?_eq_some_iff.mp hx).1
    exact ⟨hz, by rwa [List.getElem?_append_left hlt]⟩

lemma readLoop_stuck {k : ℤ} (hb : Stuck p x b) (hd : ∀ d ∈ ds, Delivered room d.length)
    (hi : ∀ d ∈ ds, d.length ≤ INT_MAX)
    (hx : (room = 0 ∨ p < base) ∨ 0 < room ∧ p = base ∧ ∀ d ∈ ds, d.head? = some x)
    (h : readLoop size base room b sum (ds.map .data ++ [.eof]) = .ok (b', k)) :
    Stuck p x b' := by
  induction ds generalizing b sum with
  | nil =>
    obtain ⟨rfl, -⟩ := Prod.mk.inj (Except.ok.inj h)
    exact hb
  | cons d ds ih =>
    obtain ⟨hd1, hds⟩ := List.forall_mem_cons.mp hd
    obtain ⟨hi1, his⟩ := List.forall_mem_cons.mp hi
    rw [List.map_cons, List.cons_append, readLoop_data hd1 (pos_of_le hd1 hi1)] at h
    obtain ⟨b1, hlay, h⟩ := bind_ok_iff.mp h
    refine ih (lay_stuck hb.1 hd1 hlay ?_) hds his ?_ h
    · exact hx.imp (fun hp => ⟨hp, hb.2⟩) fun hp => ⟨hp.1, hp.2.1, hp.2.2 d (by simp)⟩
    · exact hx.imp id fun hp => ⟨hp.1, hp.2.1, fun d hmem => hp.2.2 d (by simp [hmem])⟩

lemma Stuck.readable {y : UInt8} (h : Stuck p x b) (hy : b.readable[p]? = some y) : y = x := by
  rw [Buffer.readable, h.1, List.drop_zero, List.getElem?_take] at hy
  split_ifs at hy
  exact Option.some.inj (hy.symm.trans h.2)

/-- Blocks of given lengths, all of one byte. -/
def fillers (x : UInt8) (ns : List ℕ) : List Str := ns.map fun n => List.replicate n x

lemma fillers_length (x : UInt8) (ns : List ℕ) : (fillers x ns).map List.length = ns := by
  simp [fillers, List.map_map, Function.comp_def]

lemma forall_fillers {P : ℕ → Prop} (h : ∀ n ∈ ns, P n) : ∀ d ∈ fillers x ns, P d.length := by
  intro d hd
  obtain ⟨n, hn, rfl⟩ := List.mem_map.mp hd
  simpa using h n hn

lemma head_fillers (h : ∀ n ∈ ns, Delivered room n) : ∀ d ∈ fillers x ns, d.head? = some x := by
  intro d hd
  obtain ⟨n, hn, rfl⟩ := List.mem_map.mp hd
  rw [List.head?_replicate, if_neg (h n hn).1.ne']

/-- The bytes moved, and end before where they ended: the next block does not begin there. -/
lemma not_stored_gap (hb : b.Valid) (hr : b.readIndex_ = 0)
    (hp : b.writeIndex_ < b.buffer_.length) (hx : room = 0 ∨ b.writeIndex_ < base)
    (hne : ns ≠ []) (hd : ∀ n ∈ ns, Delivered room n) (hi : ∀ n ∈ ns, n ≤ INT_MAX) :
    ∃ x, ¬ Stored size base room b sum (fillers x ns) .eof := by
  obtain ⟨n, ns, rfl⟩ := List.exists_cons_of_ne_nil hne
  obtain ⟨x, hbx⟩ : ∃ x, b.buffer_[b.writeIndex_]? = some x := ⟨_, List.getElem?_eq_getElem hp⟩
  refine ⟨x + 1, ?_⟩
  rintro ⟨b', h, -, hread⟩
  have hst : Stuck b.writeIndex_ x b' :=
    readLoop_stuck ⟨hr, hbx⟩ (forall_fillers hd) (forall_fillers hi) (.inl hx) h
  have hlen : b.readable.length = b.writeIndex_ := by
    rw [hb.length_readable, hb.getReadableLen, hr, Nat.sub_zero]
  have hnext : b'.readable[b.writeIndex_]? = some (x + 1) := by
    rw [hread, List.getElem?_append_right hlen.le, hlen, Nat.sub_self]
    obtain ⟨n, rfl⟩ := Nat.exists_eq_succ_of_ne_zero (hd n (by simp)).1.ne'
    simp [fillers, List.replicate_succ]
  have hadd : x + 1 ≠ x := by grind
  exact hadd (hst.readable hnext)

/-- The bytes moved, and end behind where they ended: the next block is laid over the end. -/
lemma not_stored_shifted (hr : b.readIndex_ = 0) (hroom : 0 < room)
    (hx : b.readable[base]? = some 0) (hne : ns ≠ []) (hd : ∀ n ∈ ns, Delivered room n)
    (hi : ∀ n ∈ ns, n ≤ INT_MAX) : ¬ Stored size base room b sum (fillers 1 ns) .eof := by
  obtain ⟨n, ns, rfl⟩ := List.exists_cons_of_ne_nil hne
  rintro ⟨b', h, -, hread⟩
  have hd' := forall_fillers (x := 1) hd
  have hi' := forall_fillers (x := 1) hi
  have hhead := head_fillers (x := 1) hd
  obtain ⟨hd1, hds⟩ := List.forall_mem_cons.mp hd'
  obtain ⟨hi1, his⟩ := List.forall_mem_cons.mp hi'
  obtain ⟨hh1, hhs⟩ := List.forall_mem_cons.mp hhead
  have hloop : readLoop size base room b sum
      (.data (List.replicate n 1) :: ((fillers 1 ns).map .data ++ [.eof])) =
      .ok (b', sum + (fillers 1 (n :: ns)).flatten.length) := h
  rw [readLoop_data hd1 (pos_of_le hd1 hi1)] at hloop
  obtain ⟨c, hc, hloop⟩ := bind_ok_iff.mp hloop
  have hst := lay_stuck hr hd1 hc (.inr ⟨hroom, rfl, hh1⟩)
  have hst' := readLoop_stuck hst hds his (.inr ⟨hroom, rfl, hhs⟩) hloop
  have hlt := (List.getElem?_eq_some_iff.mp hx).1
  have h0 : b'.readable[base]? = some 0 := by
    rw [hread, List.getElem?_append_left hlt, hx]
  exact absurd (hst'.readable h0) (by decide)

/-- What is not stored behind a block is not stored with it. -/
lemma not_stored_cons {n : ℕ} (hd : Delivered room n) (hi : n ≤ INT_MAX)
    (hlay : lay size base room b (List.replicate n 0) = .ok b')
    (hl : Laid room b (List.replicate n 0) b')
    (h : ∃ ds : List Str, ds.map List.length = ns ∧
      ¬ Stored size base room b' (sum + n) ds .eof) :
    ∃ ds : List Str, ds.map List.length = n :: ns ∧ ¬ Stored size base room b sum ds .eof := by
  obtain ⟨ds, hlen, hno⟩ := h
  have hzero : (List.replicate n (0 : UInt8)).length = n := List.length_replicate
  refine ⟨List.replicate n 0 :: ds, by simp [hlen], ?_⟩
  rw [stored_cons (by rwa [hzero]) (by rwa [hzero]) hlay hl.readable, hzero]
  exact hno

/-- Behind a block that is not in step some bytes are not stored right. -/
lemma not_stored_step (h : Ready size base room b) {n : ℕ} (hd1 : Delivered room n)
    (hi1 : n ≤ INT_MAX) (hds : ∀ n ∈ ns, Delivered room n) (his : ∀ n ∈ ns, n ≤ INT_MAX)
    (hne : ns ≠ []) (hmoved : ¬ (room < n ∧ n = b.readIndex_))
    (hgrown : ¬ (room = 0 ∧ b.readIndex_ < n)) :
    ∃ ds : List Str, ds.map List.length = n :: ns ∧ ¬ Stored size base room b sum ds .eof := by
  obtain ⟨m, ns, rfl⟩ := List.exists_cons_of_ne_nil hne
  have hzero : (List.replicate n (0 : UInt8)).length = n := List.length_replicate
  obtain ⟨b', hlay, hl⟩ := h.lay (d := List.replicate n 0) (by rwa [hzero]) (by rwa [hzero])
  rcases le_or_gt n room with hn | hn
  · obtain ⟨d, d', rfl, rfl, hno⟩ := not_stored_short h hd1 (hds m (by simp)) hi1
      (his m (by simp)) hn (fillers 0 ns)
    exact ⟨d :: d' :: fillers 0 ns, by simp [fillers_length], hno⟩
  refine not_stored_cons hd1 hi1 hlay hl ?_
  have hfree := h.free
  rcases lt_or_ge b.readIndex_ (n - room) with hg | hm
  · have hroom : room ≠ 0 := fun h0 => hgrown ⟨h0, by omega⟩
    have hsize := (h.place.resolve_left hroom).1
    obtain ⟨hlen, -⟩ := hl.grown (by rwa [hzero]) (by rwa [hzero])
    rw [hzero] at hlen
    have hmem : List.replicate m 0 ∈ fillers 0 (m :: ns) := List.mem_cons_self
    exact ⟨fillers 0 (m :: ns), fillers_length .., not_stored_grown (Nat.pos_of_ne_zero hroom)
      (by omega) (forall_fillers hds _ hmem) (forall_fillers his _ hmem)⟩
  obtain ⟨hlen, hz, hw⟩ := hl.moved (by rwa [hzero]) (by rwa [hzero])
  rw [hzero] at hw
  have hle := h.valid.read_le
  rcases lt_or_gt_of_ne (fun heq => hmoved ⟨hn, heq⟩) with hlt | hgt
  · have hp : room = 0 ∨ b'.writeIndex_ < base := h.place.imp id fun hp => by omega
    obtain ⟨x, hno⟩ := not_stored_gap hl.valid hz (by omega) hp hne hds his
    exact ⟨_, fillers_length .., hno⟩
  · have hroom : room ≠ 0 := by omega
    obtain ⟨-, hbase⟩ := h.place.resolve_left hroom
    have hrd := h.valid.length_readable
    rw [h.valid.getReadableLen] at hrd
    have hx : b'.readable[base]? = some 0 := by
      rw [hl.readable, List.getElem?_append_right (by omega), List.getElem?_replicate,
        if_pos (by omega)]
    exact ⟨_, fillers_length ..,
      not_stored_shifted hz (Nat.pos_of_ne_zero hroom) hx hne hds his⟩

/-- Out of step some bytes are not stored right. -/
lemma exists_not_stored (sum : ℤ) (h : Ready size base room b) (hd : ∀ n ∈ ns, Delivered room n)
    (hi : ∀ n ∈ ns, n ≤ INT_MAX) (hs : ¬ InStep room b.readIndex_ ns) :
    ∃ ds : List Str, ds.map List.length = ns ∧ ¬ Stored size base room b sum ds .eof := by
  induction ns generalizing b sum with
  | nil => exact absurd trivial hs
  | cons n ns ih =>
    cases ns with
    | nil => exact absurd trivial hs
    | cons m ns =>
      obtain ⟨hd1, hds⟩ := List.forall_mem_cons.mp hd
      obtain ⟨hi1, his⟩ := List.forall_mem_cons.mp hi
      have hzero : (List.replicate n (0 : UInt8)).length = n := List.length_replicate
      obtain ⟨b', hlay, hl⟩ := h.lay (d := List.replicate n 0) (by rwa [hzero]) (by rwa [hzero])
      by_cases hmoved : room < n ∧ n = b.readIndex_
      · obtain ⟨hready, hz⟩ := hl.ready_moved h (by rw [hzero]; exact hmoved.1)
          (by rw [hzero]; exact hmoved.2)
        exact not_stored_cons hd1 hi1 hlay hl (ih (sum + n) hready hds his fun hs' =>
          hs (.inl ⟨hmoved.1, hmoved.2, hz ▸ hs'⟩))
      by_cases hgrown : room = 0 ∧ b.readIndex_ < n
      · obtain ⟨rfl, hr⟩ := hgrown
        obtain ⟨hready, hz⟩ := hl.ready_grown (by rw [hzero]; exact hr)
        exact not_stored_cons hd1 hi1 hlay hl (ih (sum + n) hready hds his fun hs' =>
          hs (.inr ⟨rfl, hr, hz ▸ hs'⟩))
      exact not_stored_step h hd1 hi1 hds his (List.cons_ne_nil m ns) hmoved hgrown

/-- **What is read is stored, whatever the bytes, exactly if every block but the last is in step**
(and no count exceeds an `int`). -/
theorem stores_iff (hb : b.Valid) (ns : List ℕ) (hd : ∀ n ∈ ns, Delivered b.getWriteableLen n) :
    (∀ ds : List Str, ds.map List.length = ns → Stores b ds) ↔
      (∀ n ∈ ns, n ≤ INT_MAX) ∧ InStep b.getWriteableLen b.readIndex_ ns := by
  have hstored : ∀ ds, Stores b ds ↔ ∀ e ∈ [ReadResult.eof, .failed],
      Stored b.buffer_.length b.writeIndex_ b.getWriteableLen b 0 ds e := fun ds => by
    unfold Stores Stored
    simp only [zero_add]
    rfl
  constructor
  · intro h
    have hint : ∀ n ∈ ns, n ≤ INT_MAX := by
      obtain ⟨b', hloop, -⟩ := (hstored _).mp (h (fillers 0 ns) (fillers_length ..)) .eof (by simp)
      have hall := (readLoop_count (forall_fillers hd) (by simp) hloop).2 rfl
      intro n hn
      simpa using hall (List.replicate n 0) (List.mem_map_of_mem hn)
    refine ⟨hint, ?_⟩
    by_contra hs
    obtain ⟨ds, hlen, hno⟩ := exists_not_stored 0 (ready hb) hd hint hs
    exact hno ((hstored ds).mp (h ds hlen) .eof (by simp))
  · rintro ⟨hint, hs⟩ ds rfl
    exact (hstored ds).mpr fun e he => stored_of_inStep (ready hb)
      (fun d hmem => hd _ (List.mem_map_of_mem hmem))
      (fun d hmem => hint _ (List.mem_map_of_mem hmem)) hs he

lemma new_delivered (size : ℕ) : Delivered (Buffer.new size).getWriteableLen 1 := by
  refine ⟨one_pos, ?_⟩
  rw [new_getWriteableLen]
  split_ifs <;> omega

theorem stores_iff_two : (∀ ds : List Str, ds.map List.length = [1, 1] → Stores .new ds) ↔
    (∀ n ∈ [1, 1], n ≤ INT_MAX) ∧
      InStep (Buffer.new).getWriteableLen (Buffer.new).readIndex_ [1, 1] :=
  stores_iff (new_valid 1024) [1, 1] (by simpa using new_delivered 1024)

/-- Two bytes that come one by one. -/
theorem second_over_first :
    Delivered (Buffer.new).getWriteableLen 1 ∧ ¬ Stores .new [[97], [98]] := by
  refine ⟨new_delivered 1024, fun h => ?_⟩
  obtain ⟨b, hb, -, hr⟩ := h .eof (by simp)
  have hrun : (readFd .new [.data [97], .data [98], .eof]).map (fun r => r.1.readable) =
      .ok [98, 0] := by decide +kernel
  have hb' : readFd .new [.data [97], .data [98], .eof] = .ok (b, ([97, 98] : Str).length) := hb
  rw [hb'] at hrun
  have hread : b.readable = [98, 0] := Except.ok.inj hrun
  rw [hr] at hread
  exact absurd hread (by decide)

end MuduoZ.ReadBlocks
