import MuduoZ.Connection
import MuduoZ.ReadBlocks

/-!
What a read event is taken for.

Which handler runs depends on the number of bytes read alone. How the reading ended is seen only
if nothing was read before, and is then taken for the end of the stream.
-/

namespace MuduoZ.ReadEvent

open Buffer ReadBlocks

/-- How the calls of `readv` end: with 0, with -1 and `EAGAIN`, or with -1 and another error. -/
inductive Ending
  | closed | again | error
  deriving DecidableEq, Repr

def Ending.result : Ending → ReadResult
  | .closed => .eof
  | .again => .failed
  | .error => .failed

/-- What `handleRead` calls. -/
inductive Handler
  | message | close | error
  deriving DecidableEq, Repr

def Handler.run (c : Connection) : Handler → Connection
  | .message => c.emit .messageReceivedCallBack
  | .close => c.handleClose
  | .error => c.handleError

/-- The branch that `handleRead` takes. -/
def handler (c : Connection) (receiveSum : ℤ) : Handler :=
  if 0 < toInt receiveSum ∧ c.messageReceivedCallBack_ then .message
  else if toInt receiveSum = 0 then .close
  else .error

/-- `handleRead` goes through, and calls what the blocks and the end call for. -/
def Classified (c : Connection) (ds : List Str) (e : Ending) : Prop :=
  ∃ input receiveSum, c.inputBuffer_.readFd (ds.map .data ++ [e.result]) = .ok (input, receiveSum) ∧
    c.handleRead (ds.map .data ++ [e.result]) =
      .ok ((handler c receiveSum).run { c with inputBuffer_ := input }) ∧
    (handler c receiveSum = .message ↔ 0 < ds.flatten.length) ∧
    (handler c receiveSum = .close ↔ e = .closed) ∧ (handler c receiveSum = .error ↔ e = .error)

/-- Blocks of these lengths are neither laid nor moved outside the vector, which has length `len`
and `r` consumed bytes in front. -/
def Inside (size base room : ℕ) : ℕ → ℕ → List ℕ → Prop
  | _, _, [] => True
  | len, r, n :: ns =>
    (room = 0 ∨ len = size ∧ base + min n room ≤ size) ∧
      if n ≤ room then Inside size base room len r ns
      else if r < n - room then Inside size base room (len + (n - room)) r ns
      else r ≤ len ∧ Inside size base room len 0 ns

/-- `Inside`, when the loop begins. -/
def Safe (b : Buffer) (ns : List ℕ) : Prop :=
  Inside b.buffer_.length b.writeIndex_ b.getWriteableLen b.buffer_.length b.readIndex_ ns

lemma handleRead_eq (c : Connection) (results : List ReadResult) :
    c.handleRead results = (do
      let (input, receiveSum) ← c.inputBuffer_.readFd results
      .ok ((handler c receiveSum).run { c with inputBuffer_ := input })) := by
  rw [Connection.handleRead]
  refine bind_congr fun ⟨input, receiveSum⟩ => ?_
  dsimp only [handler]
  split_ifs <;> rfl

variable {size base room : ℕ} {b : Buffer} {d : Str} {ds : List Str} {sum : ℤ} {ns : List ℕ}

/-! ### Reading -/

lemma fill_inside (h : room = 0 ∨ b.buffer_.length = size ∧ base + min d.length room ≤ size) :
    ∃ c, b.fill size base (d.take room) = .ok c ∧ c.buffer_.length = b.buffer_.length ∧
      c.readIndex_ = b.readIndex_ := by
  rcases h with rfl | ⟨hs, hle⟩
  · exact ⟨b, by simp [Buffer.fill, overwrite_nil], rfl, rfl⟩
  · have htake : base + (d.take room).length ≤ b.buffer_.length := by
      rw [List.length_take, min_comm]; omega
    refine ⟨{ b with buffer_ := overwrite b.buffer_ base (d.take room) }, ?_,
      length_overwrite htake, rfl⟩
    rw [Buffer.fill, if_neg]
    rintro ⟨-, hne | hlt⟩
    · exact hne hs
    · omega

lemma fill_outside (hd : 0 < d.length)
    (h : ¬ (room = 0 ∨ b.buffer_.length = size ∧ base + min d.length room ≤ size)) :
    b.fill size base (d.take room) = .error .range := by
  obtain ⟨hroom, hout⟩ := not_or.mp h
  have htake : (d.take room).length = min d.length room := by rw [List.length_take, min_comm]
  rw [Buffer.fill, if_pos]
  refine ⟨List.length_pos_iff.mp (by omega), ?_⟩
  by_contra hin
  obtain ⟨hs, hle⟩ := not_or.mp hin
  exact hout ⟨not_not.mp hs, by omega⟩

/-- One block: either it stays inside and the others have to, or it does not. -/
lemma lay_inside (hd : Delivered room d.length) :
    (∃ b', lay size base room b d = .ok b' ∧
        (Inside size base room b.buffer_.length b.readIndex_ (d.length :: ns) ↔
          Inside size base room b'.buffer_.length b'.readIndex_ ns)) ∨
      (lay size base room b d = .error .range ∧
        ¬ Inside size base room b.buffer_.length b.readIndex_ (d.length :: ns)) := by
  rw [Inside]
  by_cases hin : room = 0 ∨ b.buffer_.length = size ∧ base + min d.length room ≤ size
  · obtain ⟨c, hc, hlen, hr⟩ := fill_inside hin
    rcases le_or_gt d.length room with hn | hn
    · left
      rw [List.take_of_length_le hn] at hc
      refine ⟨{ c with writeIndex_ := szAdd c.writeIndex_ (toInt d.length) }, ?_, ?_⟩
      · rw [lay_in hn, hc, ok_bind]
      · simp only [and_iff_right hin, if_pos hn, hlen, hr]
    · have hdrop : (d.drop room).length = d.length - room := List.length_drop ..
      have hne : d.drop room ≠ [] := by simpa using hn
      rw [lay_over hd hn, hc, ok_bind, if_neg hn.not_ge]
      rcases lt_or_ge b.readIndex_ (d.length - room) with hg | hm
      · left
        refine ⟨_, @append_grow { c with writeIndex_ := c.buffer_.length } (d.drop room) rfl
          (by simp only [hr, hdrop]; exact hg), ?_⟩
        rw [if_pos hg]
        simp [hin, hlen, hr]
      · rw [if_neg hm.not_gt]
        by_cases hle : b.readIndex_ ≤ b.buffer_.length
        · left
          obtain ⟨b', hb', hlen', -, hr'⟩ :=
            @append_move { c with writeIndex_ := c.buffer_.length } (d.drop room) rfl hne
              (by simp only [hr, hdrop]; exact hm) (by simp only [hr, hlen]; exact hle)
          exact ⟨b', hb', by simp [hin, hle, hlen', hlen, hr']⟩
        · right
          refine ⟨@append_stray { c with writeIndex_ := c.buffer_.length } (d.drop room) rfl hne
            (by simp only [hr, hdrop]; exact hm) (by simp only [hr, hlen]; omega), ?_⟩
          simp [hle]
  · right
    refine ⟨?_, fun h => hin h.1⟩
    rw [lay, fill_outside hd.1 hin, error_bind]

lemma toInt_add (a b : ℤ) : toInt (a + toInt b) = toInt (a + b) := Int.add_bmod_bmod

/-- The loop on any blocks: they stay inside, and are counted up to a multiple of `2^32`, or the
loop has no result. -/
lemma readLoop_inside (b : Buffer) (sum : ℤ)
    (hd : ∀ d ∈ ds, Delivered room d.length ∧ 0 < toInt d.length) (e : Ending) :
    (Inside size base room b.buffer_.length b.readIndex_ (ds.map List.length) ∧ ∃ b' k,
        readLoop size base room b sum (ds.map .data ++ [e.result]) = .ok (b', k) ∧
          toInt k = toInt (sum + ds.flatten.length)) ∨
      (¬ Inside size base room b.buffer_.length b.readIndex_ (ds.map List.length) ∧
        readLoop size base room b sum (ds.map .data ++ [e.result]) = .error .range) := by
  induction ds generalizing b sum with
  | nil => exact .inl ⟨trivial, b, sum, by cases e <;> rfl, by simp⟩
  | cons d ds ih =>
    obtain ⟨⟨hd1, hc1⟩, hds⟩ := List.forall_mem_cons.mp hd
    rw [List.map_cons, List.map_cons, List.cons_append, readLoop_data hd1 hc1]
    rcases @lay_inside size base room b d (ds.map List.length) hd1 with
      ⟨b', hb', hiff⟩ | ⟨he, hno⟩
    · have hsum : toInt (sum + toInt d.length + ds.flatten.length) =
          toInt (sum + (d :: ds).flatten.length) := by
        have hflat : ((d :: ds).flatten.length : ℤ) = d.length + ds.flatten.length := by simp
        rw [hflat, add_right_comm, toInt_add, add_right_comm, add_assoc]
      rw [hb', ok_bind, hiff, ← hsum]
      exact ih b' _ hds
    · exact .inr ⟨hno, by rw [he, error_bind]⟩

/-! ### The handler -/

variable {c : Connection} {e : Ending}

lemma handler_congr {k l : ℤ} (h : toInt k = toInt l) : handler c k = handler c l := by
  simp only [handler, h]

lemma classified_of_ok {input : Buffer} {k : ℤ}
    (h : c.inputBuffer_.readFd (ds.map .data ++ [e.result]) = .ok (input, k)) :
    Classified c ds e ↔ (handler c k = .message ↔ 0 < ds.flatten.length) ∧
      (handler c k = .close ↔ e = .closed) ∧ (handler c k = .error ↔ e = .error) := by
  constructor
  · rintro ⟨input', k', h', -, hh⟩
    obtain ⟨-, rfl⟩ := Prod.mk.inj (Except.ok.inj (h.symm.trans h'))
    exact hh
  · exact fun hh => ⟨input, k, h, by rw [handleRead_eq, h, ok_bind], hh⟩

/-- The reading stays inside, and the handler is that of the number of bytes. -/
lemma classified_cases
    (hd : ∀ d ∈ ds, Delivered c.inputBuffer_.getWriteableLen d.length ∧ 0 < toInt d.length) :
    Classified c ds e ↔ Safe c.inputBuffer_ (ds.map List.length) ∧
      (handler c ds.flatten.length = .message ↔ 0 < ds.flatten.length) ∧
      (handler c ds.flatten.length = .close ↔ e = .closed) ∧
      (handler c ds.flatten.length = .error ↔ e = .error) := by
  rcases readLoop_inside c.inputBuffer_ 0 hd e with ⟨hin, b', k, h, hk⟩ | ⟨hout, h⟩
  · rw [classified_of_ok h, handler_congr (hk.trans (by rw [zero_add]))]
    exact (and_iff_right hin).symm
  · refine ⟨?_, fun hh => absurd hh.1 hout⟩
    rintro ⟨input, k, h', -⟩
    exact absurd (h.symm.trans h') (by simp)

lemma handler_zero : handler c 0 = .close := by simp [handler, toInt]

lemma handler_message {k : ℤ} :
    handler c k = .message ↔ 0 < toInt k ∧ c.messageReceivedCallBack_ = true := by
  unfold handler
  split_ifs with h h' <;> simp [h]

/-- **A read event is taken for what it is** exactly if nothing is read and the peer has closed, or
something is read and then no more is there: with a callback set, a number of bytes that is positive
as an `int`, and blocks that stay inside the vector. -/
theorem classified_iff (c : Connection) (ds : List Str) (e : Ending)
    (hd : ∀ d ∈ ds, Delivered c.inputBuffer_.getWriteableLen d.length ∧ 0 < toInt d.length) :
    Classified c ds e ↔ (ds = [] ∧ e = .closed) ∨
      (ds ≠ [] ∧ e = .again ∧ c.messageReceivedCallBack_ = true ∧
        0 < toInt ds.flatten.length ∧ Safe c.inputBuffer_ (ds.map List.length)) := by
  rw [classified_cases hd]
  cases ds with
  | nil => cases e <;> simp [handler_zero, Safe, Inside]
  | cons d ds =>
    have hpos : 0 < (d :: ds).flatten.length := by
      have := (hd d (by simp)).1.1
      simp only [List.flatten_cons, List.length_append]
      omega
    constructor
    · rintro ⟨hsafe, hm, hc, he⟩
      have hmsg := hm.mpr hpos
      obtain ⟨hsum, hcb⟩ := handler_message.mp hmsg
      rw [hmsg] at hc he
      -- the message callback is all that is called
      cases e with
      | closed => exact absurd (hc.mpr rfl) (by decide)
      | error => exact absurd (he.mpr rfl) (by decide)
      | again => exact .inr ⟨List.cons_ne_nil d ds, rfl, hcb, hsum, hsafe⟩
    · rintro (⟨h, -⟩ | ⟨-, rfl, hcb, hsum, hsafe⟩)
      · exact absurd h (List.cons_ne_nil d ds)
      · have hmsg : handler c (d :: ds).flatten.length = .message := handler_message.mpr ⟨hsum, hcb⟩
        rw [hmsg]
        exact ⟨hsafe, iff_of_true rfl hpos, by decide, by decide⟩

/-- Blocks that fit into the free space of a buffer whose positions are in order are safe. -/
lemma safe_of_fit (hb : b.Valid) (hn : ∀ n ∈ ns, n ≤ b.getWriteableLen) : Safe b ns := by
  have hw := hb.write_le
  rw [getWriteableLen, szSub_of_le hw] at hn
  rw [Safe, getWriteableLen, szSub_of_le hw]
  induction ns with
  | nil => trivial
  | cons n ns ih =>
    obtain ⟨h1, hns⟩ := List.forall_mem_cons.mp hn
    exact ⟨.inr ⟨rfl, by omega⟩, by rw [if_pos h1]; exact ih hns⟩

/-! ### Ends that are not seen -/

/-- A connection that was established with a callback for messages. -/
def established : Connection := (Connection.new true false).connectEstablished

lemma one_delivered : ∀ d ∈ ([[97]] : List Str),
    Delivered established.inputBuffer_.getWriteableLen d.length ∧ 0 < toInt d.length := by
  simpa using ⟨new_delivered 1024, by decide⟩

theorem classified_one : Classified established [[97]] .again := by
  have hfit : 1 ≤ established.inputBuffer_.getWriteableLen := by
    rw [show established.inputBuffer_ = Buffer.new from rfl, new_getWriteableLen]
    norm_num
  exact (classified_iff established [[97]] .again one_delivered).mpr
    (.inr ⟨by decide, rfl, rfl, by decide, safe_of_fit (new_valid 1024) (by simpa using hfit)⟩)

/-- The peer sends a byte and closes; or there is nothing to be read. -/
theorem end_not_seen :
    ¬ Classified established [[97]] .closed ∧ ¬ Classified established [] .again := by
  constructor
  · rw [classified_cases one_delivered]
    rintro ⟨-, hm, hc, -⟩
    exact absurd ((hm.mpr (by decide)).symm.trans (hc.mpr rfl)) (by decide)
  · rw [classified_cases (by simp)]
    rintro ⟨-, -, hc, -⟩
    exact absurd (hc.mp handler_zero) (by decide)

end MuduoZ.ReadEvent
