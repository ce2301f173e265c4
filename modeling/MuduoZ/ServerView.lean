import MuduoZ.ConnectionCalls
import MuduoZ.ServerRun

/-!
What concerns one connection in a run of the server, and what is kept of it.

A step changes what concerns one connection, and leaves what concerns any other alone. So the
invariant is one of a single connection.
-/

namespace MuduoZ.ServerRun

open Runs

variable {n : ℕ}

/-- All that concerns one connection: itself, its loop, its entry in the table, the pointers the
user keeps, what the loops are to run, whether its events are to be handled, and its guard. -/
@[ext]
structure View (n : ℕ) where
  conn : Connection
  loop_ : Fin (n + 1)
  inTable : Bool
  kept : ℕ
  todo : Fin (n + 1) → List Bound
  active : Fin (n + 1) → ℕ
  guarded : Fin (n + 1) → Bool

def LoopThread.todoOf (l : LoopThread) (c : ConnectionPtr) : List Bound :=
  (l.todo.filter (·.conn = c)).map Functor.run

def Sys.view (s : Sys n) (c : ConnectionPtr) : View n where
  conn := s.conns c
  loop_ := s.loop_ c
  inTable := s.server.connectionMap_.any fun e => e.2 == c
  kept := s.kept.count c
  todo l := (s.loops l).todoOf c
  active l := (s.loops l).active.count c
  guarded l := (s.loops l).guarded == some c

namespace View

variable (v : View n)

/-- Nothing refers to the connection. -/
structure Blank : Prop where
  inTable : v.inTable = false
  kept : v.kept = 0
  todo : ∀ l, v.todo l = []
  active : ∀ l, v.active l = 0
  guarded : ∀ l, v.guarded l = false
  interest : v.conn.channel_.interest = none

/-- What is kept of a connection: it is in the table while it is open, it is established once, only
its own loop and the base loop work on it, and while a plain pointer to it is about, it is open or
the user keeps a `shared_ptr`. -/
structure Good : Prop where
  valid : v.conn.outputBuffer_.Valid
  established : (v.todo v.loop_).count .connectEstablished =
    if v.conn.state_ = .Connecting then 1 else 0
  inLoop : ∀ l, ∀ b ∈ v.todo l, b ≠ .connectionCloseInLoop → l = v.loop_
  inBase : ∀ l, .connectionCloseInLoop ∈ v.todo l → l = 0 ∧ v.conn.state_ = .Disconnected
  begun : ∀ l t, .task t ∈ v.todo l → v.conn.state_ ≠ .Connecting
  raw : ∀ l, ∀ b ∈ v.todo l, b.strong = false → 0 < v.kept
  opened : v.conn.state_ ≠ .Disconnected → v.inTable = true
  closing : v.conn.state_ = .Disconnected → v.inTable = true → .connectionCloseInLoop ∈ v.todo 0
  new : v.conn.state_ = .Connecting → v.conn.channel_ = .new
  agrees : v.conn.state_ ≠ .Connecting → v.conn.channel_.Agrees
  watched : v.conn.state_ = .Disconnected → v.conn.channel_.event_ ≠ Channel.NoneEvent → 0 < v.kept
  active : ∀ l, 0 < v.active l → l = v.loop_ ∧ v.active l = 1 ∧ v.conn.state_ ≠ .Connecting ∧
    (v.conn.state_ = .Disconnected → 0 < v.kept)
  guarded : ∀ l, v.guarded l = true → l = v.loop_ ∧ v.active l = 0 ∧ v.conn.state_ ≠ .Connecting

/-- The view after a call of the connection that ended in `k`. -/
def apply (k : Connection) : View n :=
  { v with
    conn := k
    inTable := v.inTable && !decide (closes k ∧ v.loop_ = baseLoop)
    todo := fun l => v.todo l ++ (if l = v.loop_ then k.pendingFunctions_.map .task else []) ++
      if closes k ∧ v.loop_ ≠ baseLoop ∧ l = baseLoop then [.connectionCloseInLoop] else [] }

/-- The first function of a loop is taken off. -/
def pop (l : Fin (n + 1)) : View n :=
  { v with todo := Function.update v.todo l (v.todo l).tail }

variable {v}

lemma mem_apply_todo {k : Connection} {l : Fin (n + 1)} {b : Bound} :
    b ∈ (v.apply k).todo l ↔ b ∈ v.todo l ∨ (l = v.loop_ ∧ ∃ t ∈ k.pendingFunctions_, b = .task t) ∨
      (.connectCloseCallBack ∈ k.log ∧ v.loop_ ≠ 0 ∧ l = 0) ∧ b = .connectionCloseInLoop := by
  simp only [apply, List.mem_append, or_assoc, closes_iff]
  refine or_congr_right (or_congr ?_ ?_)
  · split_ifs with h <;> simp [h, eq_comm]
  · split_ifs with h <;> simp [h]

/-- What a call queues does not establish the connection. -/
lemma count_apply {k : Connection} {l : Fin (n + 1)} :
    ((v.apply k).todo l).count .connectEstablished = (v.todo l).count .connectEstablished := by
  have hnone : ∀ ts : List Connection.Task,
      (ts.map Bound.task).count .connectEstablished = 0 := fun ts =>
    List.count_eq_zero.mpr (by simp)
  simp only [apply, List.count_append]
  split_ifs <;> simp [hnone]

/-- The connection as a call finds it. -/
def called (v : View n) : Connection := { v.conn with pendingFunctions_ := [], log := [] }

lemma Good.called_begun (h : Good v) (hst : v.conn.state_ ≠ .Connecting) : v.called.Begun :=
  ⟨h.valid, h.agrees hst, hst, List.not_mem_nil⟩

/-- **A call keeps the invariant**, if a function that is bound by `this` or a channel that is
watched again comes from a user who keeps a pointer, and a close from one whose event is handled. -/
theorem Good.apply (h : Good v) (hst : v.conn.state_ ≠ .Connecting) {k : Connection}
    (ho : v.called.Outcome k)
    (hraw : 0 < v.kept ∨ ∀ t ∈ k.pendingFunctions_, (Bound.task t).strong = true)
    (hquiet : 0 < v.kept ∨ v.called.Quiet k)
    (hactive : 0 < v.kept ∨ .connectCloseCallBack ∉ k.log ∨ ∀ l, v.active l = 0) :
    Good (v.apply k) := by
  have hclosed : k.state_ = .Disconnected ↔ v.conn.state_ = .Disconnected ∨
      .connectCloseCallBack ∈ k.log := ho.closed
  refine ⟨ho.valid, ?_, fun l b hb hne => ?_, fun l hb => ?_, fun l t hb => ho.begun,
    fun l b hb hs => ?_, fun hop => ?_, fun hcl hin => ?_, fun hc => absurd hc ho.begun,
    fun _ => ho.agrees, fun hcl hev => ?_, fun l hl => ?_, fun l hl => ?_⟩
  · rw [count_apply]
    exact (h.established.trans (if_neg hst)).trans (if_neg ho.begun).symm
  · rcases mem_apply_todo.mp hb with hb | ⟨hl, -⟩ | ⟨-, hb⟩
    exacts [h.inLoop l b hb hne, hl, absurd hb hne]
  · rcases mem_apply_todo.mp hb with hb | ⟨-, t, -, hb⟩ | ⟨⟨hlog, -, hl⟩, -⟩
    · exact ⟨(h.inBase l hb).1, hclosed.mpr (.inl (h.inBase l hb).2)⟩
    · cases hb
    · exact ⟨hl, hclosed.mpr (.inr hlog)⟩
  · rcases mem_apply_todo.mp hb with hb | ⟨-, t, ht, rfl⟩ | ⟨-, rfl⟩
    · exact h.raw l b hb hs
    · rcases hraw with hk | hstrong
      · exact hk
      · rw [hstrong t ht] at hs; cases hs
    · cases hs
  · have hlog : .connectCloseCallBack ∉ k.log := fun hlog => hop (hclosed.mpr (.inr hlog))
    have hop' : v.conn.state_ ≠ .Disconnected := fun hd => hop (hclosed.mpr (.inl hd))
    simp [View.apply, hlog, h.opened hop']
  · simp only [View.apply, Bool.and_eq_true, Bool.not_eq_true', decide_eq_false_iff_not,
      not_and] at hin
    rw [mem_apply_todo]
    rcases hclosed.mp hcl with hd | hlog
    · exact .inl (h.closing hd hin.1)
    · exact .inr (.inr ⟨⟨hlog, hin.2 (closes_iff.mpr hlog), rfl⟩, rfl⟩)
  · rcases hquiet with hk | hq
    · exact hk
    · have hlog : .connectCloseCallBack ∉ k.log := fun hlog => hev (ho.unwatched hlog)
      exact h.watched ((hclosed.mp hcl).resolve_right hlog) (mt hq hev)
  · obtain ⟨hloop, hone, -, hkept⟩ := h.active l hl
    refine ⟨hloop, hone, ho.begun, fun hcl => ?_⟩
    rcases hactive with hk | hlog | hnone
    · exact hk
    · exact hkept ((hclosed.mp hcl).resolve_right hlog)
    · exact absurd (hnone l) hl.ne'
  · obtain ⟨hloop, hnone, -⟩ := h.guarded l hl
    exact ⟨hloop, hnone, ho.begun⟩

/-- A call on a connection that is not established, which does nothing. -/
lemma Good.apply_called (h : Good v) : Good (v.apply v.called) := by
  have htodo : (v.apply v.called).todo = v.todo := by
    funext l; simp [View.apply, called]
  have htable : (v.apply v.called).inTable = v.inTable := by simp [View.apply, called]
  obtain ⟨h1, h2, h3, h4, h5, h6, h7, h8, h9, h10, h11, h12, h13⟩ := h
  refine ⟨h1, ?_, ?_, ?_, ?_, ?_, ?_, ?_, h9, h10, h11, h12, h13⟩ <;> (try rw [htodo]) <;>
    (try rw [htable])
  exacts [h2, h3, h4, h5, h6, h7, h8]

lemma mem_of_mem_pop {l l' : Fin (n + 1)} {b : Bound} (hb : b ∈ (v.pop l).todo l') :
    b ∈ v.todo l' := by
  simp only [View.pop] at hb
  by_cases hl : l' = l
  · subst hl
    rw [Function.update_self] at hb
    exact List.mem_of_mem_tail hb
  · rwa [Function.update_of_ne hl] at hb

lemma mem_pop {l l' : Fin (n + 1)} {b b' : Bound} {bs : List Bound} (hl : v.todo l = b :: bs)
    (hne : b' ≠ b) (hb : b' ∈ v.todo l') : b' ∈ (v.pop l).todo l' := by
  simp only [View.pop]
  by_cases hll : l' = l
  · subst hll
    rw [hl, List.mem_cons] at hb
    rw [Function.update_self, hl]
    exact hb.resolve_left hne
  · rwa [Function.update_of_ne hll]

lemma count_pop {l l' : Fin (n + 1)} {b b' : Bound} {bs : List Bound} (hl : v.todo l = b :: bs)
    (hne : b ≠ b') : ((v.pop l).todo l').count b' = (v.todo l').count b' := by
  simp only [View.pop]
  by_cases hll : l' = l
  · rw [hll, Function.update_self, hl, List.tail_cons, List.count_cons_of_ne hne]
  · rw [Function.update_of_ne hll]

/-- A function is taken off that neither establishes nor closes. -/
lemma Good.pop {l : Fin (n + 1)} {t : Connection.Task} {bs : List Bound} (h : Good v)
    (hl : v.todo l = .task t :: bs) : Good (v.pop l) :=
  ⟨h.valid, (count_pop hl (by simp)).trans h.established,
    fun l' b hb => h.inLoop l' b (mem_of_mem_pop hb), fun l' hb => h.inBase l' (mem_of_mem_pop hb),
    fun l' t' hb => h.begun l' t' (mem_of_mem_pop hb),
    fun l' b hb => h.raw l' b (mem_of_mem_pop hb), h.opened,
    fun hcl hin => mem_pop hl (by simp) (h.closing hcl hin), h.new, h.agrees, h.watched, h.active,
    h.guarded⟩

/-- The connection is established, by its own loop. -/
lemma Good.establish {l : Fin (n + 1)} {bs : List Bound} (h : Good v)
    (hl : v.todo l = .connectEstablished :: bs) :
    l = v.loop_ ∧ Good ((v.apply v.called.connectEstablished).pop l) := by
  have hloop : l = v.loop_ := h.inLoop l _ (by rw [hl]; exact List.mem_cons_self ..) (by simp)
  have hcount := h.established
  rw [← hloop, hl, List.count_cons_self] at hcount
  have hst : v.conn.state_ = .Connecting := by
    by_contra hne
    rw [if_neg hne] at hcount
    cases hcount
  rw [if_pos hst, Nat.add_eq_right] at hcount
  have htodo : (v.apply v.called.connectEstablished).todo = v.todo := by
    funext l; simp [View.apply, called, Connection.connectEstablished, Connection.emit]
  have htable : (v.apply v.called.connectEstablished).inTable = v.inTable := by
    simp [View.apply, called, Connection.connectEstablished, Connection.emit]
  have hmem : ∀ {l' b}, b ∈ ((v.apply v.called.connectEstablished).pop l).todo l' →
      b ∈ v.todo l' := fun hb => by
    have := mem_of_mem_pop hb
    rwa [htodo] at this
  have hchannel : (v.apply v.called.connectEstablished).conn.channel_ =
      Channel.new.enableReadEvent := by
    rw [← h.new hst]; rfl
  refine ⟨hloop, h.valid, ?_, fun l' b hb => h.inLoop l' b (hmem hb), fun l' hb => ?_,
    fun _ _ _ => ?_, fun l' b hb => h.raw l' b (hmem hb), fun _ => ?_, fun hcl => ?_, fun hc => ?_,
    fun _ => ?_, fun hcl => ?_, fun l' ha => ?_, fun l' hg => ?_⟩
  · change (Function.update (v.apply _).todo l ((v.apply _).todo l).tail v.loop_).count _ = 0
    rw [htodo, ← hloop, Function.update_self, hl]
    exact hcount
  · have := (h.inBase l' (hmem hb)).2
    rw [hst] at this
    cases this
  · simp [View.pop, View.apply, Connection.connectEstablished, Connection.emit]
  · change (v.apply _).inTable = true
    rw [htable]
    exact h.opened (by simp [hst])
  · cases hcl
  · cases hc
  · change (v.apply v.called.connectEstablished).conn.channel_.Agrees
    rw [hchannel]
    exact Channel.enableReadEvent_new
  · cases hcl
  · exact absurd hst (h.active l' ha).2.2.1
  · exact absurd hst (h.guarded l' hg).2.2

/-- The base loop takes the connection out of the table. -/
lemma Good.erase {l : Fin (n + 1)} {bs : List Bound} (h : Good v)
    (hl : v.todo l = .connectionCloseInLoop :: bs) :
    l = 0 ∧ Good ({ v with inTable := false }.pop l) := by
  obtain ⟨hbase, hcl⟩ := h.inBase l (by rw [hl]; exact List.mem_cons_self ..)
  have hmem : ∀ {l' b}, b ∈ ({ v with inTable := false }.pop l).todo l' → b ∈ v.todo l' :=
    fun hb => mem_of_mem_pop (v := { v with inTable := false }) hb
  refine ⟨hbase, h.valid, ?_, fun l' b hb => h.inLoop l' b (hmem hb),
    fun l' hb => h.inBase l' (hmem hb), fun l' t' hb => h.begun l' t' (hmem hb),
    fun l' b hb => h.raw l' b (hmem hb), fun hop => absurd hcl hop, fun _ hin => ?_, h.new,
    h.agrees, h.watched, h.active, h.guarded⟩
  · exact (count_pop (v := { v with inTable := false }) hl (by simp)).trans h.established
  · cases hin

/-- `poll` returns the channel or does not. -/
lemma Good.poll {l : Fin (n + 1)} {k : ℕ} (h : Good v) (hg : v.guarded l = false) (hk : k ≤ 1)
    (hready : 0 < k → v.loop_ = l ∧ v.conn.channel_.interest ≠ none) :
    Good { v with active := Function.update v.active l k } := by
  refine ⟨h.valid, h.established, h.inLoop, h.inBase, h.begun, h.raw, h.opened, h.closing, h.new,
    h.agrees, h.watched, fun l' ha => ?_, fun l' hg' => ?_⟩
  · dsimp only at ha ⊢
    by_cases hl : l' = l
    · subst hl
      rw [Function.update_self] at ha ⊢
      obtain ⟨hloop, hint⟩ := hready ha
      have hst : v.conn.state_ ≠ .Connecting := fun hc => hint (by rw [h.new hc]; rfl)
      exact ⟨hloop.symm, by omega, hst, fun hcl =>
        h.watched hcl fun hev => hint ((h.agrees hst).interest_none hev)⟩
    · rw [Function.update_of_ne hl] at ha ⊢
      exact h.active l' ha
  · have hl : l' ≠ l := by rintro rfl; simp [hg] at hg'
    dsimp only
    rw [Function.update_of_ne hl]
    exact h.guarded l' hg'

/-- The event of the channel is taken. -/
lemma Good.handle {l : Fin (n + 1)} (h : Good v) (ha : 0 < v.active l) :
    Good { v with
      active := Function.update v.active l (v.active l - 1)
      guarded := Function.update v.guarded l true } := by
  obtain ⟨hloop, hone, hst, -⟩ := h.active l ha
  refine ⟨h.valid, h.established, h.inLoop, h.inBase, h.begun, h.raw, h.opened, h.closing, h.new,
    h.agrees, h.watched, fun l' ha' => ?_, fun l' hg => ?_⟩
  · dsimp only at ha' ⊢
    by_cases hl : l' = l
    · subst hl
      rw [Function.update_self] at ha'
      omega
    · rw [Function.update_of_ne hl] at ha' ⊢
      exact h.active l' ha'
  · dsimp only at hg ⊢
    by_cases hl : l' = l
    · subst hl
      rw [Function.update_self]
      exact ⟨hloop, by omega, hst⟩
    · rw [Function.update_of_ne hl] at hg ⊢
      exact h.guarded l' hg

/-- The guard is let go. -/
lemma Good.unguard {l : Fin (n + 1)} (h : Good v) :
    Good { v with guarded := Function.update v.guarded l false } := by
  refine ⟨h.valid, h.established, h.inLoop, h.inBase, h.begun, h.raw, h.opened, h.closing, h.new,
    h.agrees, h.watched, h.active, fun l' hg => h.guarded l' ?_⟩
  dsimp only at hg
  by_cases hl : l' = l
  · subst hl; simp at hg
  · rwa [Function.update_of_ne hl] at hg

/-- The last pointer of the user may go: no function is bound by `this`, and if the connection is
closed, `epoll` does not know its channel. -/
structure Releasable (v : View n) : Prop where
  raw : ∀ l, ∀ b ∈ v.todo l, b.strong = true
  closed : v.conn.state_ = .Disconnected →
    v.conn.channel_.interest = none ∧ ∀ l, v.active l = 0

/-- The user has another number of pointers. -/
lemma Good.hold {k : ℕ} (h : Good v) (hk : 0 < k ∨ Releasable v) : Good { v with kept := k } := by
  have hst : v.conn.state_ = .Disconnected → v.conn.state_ ≠ .Connecting := fun hcl hc => by
    rw [hcl] at hc; cases hc
  refine ⟨h.valid, h.established, h.inLoop, h.inBase, h.begun, fun l b hb hs => ?_, h.opened,
    h.closing, h.new, h.agrees, fun hcl hev => ?_, fun l ha => ?_, h.guarded⟩
  · refine hk.resolve_right fun hr => ?_
    rw [hr.raw l b hb] at hs
    cases hs
  · refine hk.resolve_right fun hr => ?_
    have hint := (hr.closed hcl).1
    rw [(h.agrees (hst hcl)).watched, if_neg hev] at hint
    cases hint
  · obtain ⟨hloop, hone, hbegun, -⟩ := h.active l ha
    refine ⟨hloop, hone, hbegun, fun hcl => hk.resolve_right fun hr => ?_⟩
    exact ha.ne' ((hr.closed hcl).2 l)

/-- A new connection, which its loop is to establish. -/
lemma good_new (received sent : Bool) (loop : Fin (n + 1)) :
    Good (n := n) ⟨.new received sent, loop, true, 0,
      fun l => if l = loop then [.connectEstablished] else [], fun _ => 0, fun _ => false⟩ := by
  refine ⟨Buffer.new_valid 1024, ?_, fun l b hb _ => ?_, fun l hb => ?_, fun l t hb => ?_,
    fun l b hb hs => ?_, fun _ => rfl, fun hcl => ?_, fun _ => rfl, fun hst => absurd rfl hst,
    fun hcl => ?_, fun l ha => absurd ha (Nat.lt_irrefl 0), fun l hg => ?_⟩
  · simp [Connection.new]
  · dsimp only at hb ⊢
    split_ifs at hb with hl
    · exact hl
    · cases hb
  · dsimp only at hb
    split_ifs at hb <;> simp at hb
  · dsimp only at hb
    split_ifs at hb <;> simp at hb
  · dsimp only at hb
    split_ifs at hb
    · rw [List.mem_singleton.mp hb] at hs; cases hs
    · cases hb
  · cases hcl
  · cases hcl
  · cases hg

end View

end MuduoZ.ServerRun
