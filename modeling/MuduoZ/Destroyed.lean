import MuduoZ.ServerStream

/-!
When a closed connection is destroyed.

What the loops still have of it goes as they come round: the guard of `handleEvent` with the event,
and a function at the end of the round in which it is run. While its last event is handled, the
connection may be closed once more or queue `messageSendCallBack`, so the two rounds that the
functions take are counted from there.
-/

namespace MuduoZ.ServerRun

open Runs Connection

variable {n : ℕ} {s s' s'' : Sys n} {l : Fin (n + 1)} {c d : ConnectionPtr}
  {P Q : ConnectionPtr → Prop} {gone : ConnectionPtr → Prop}

/-! ### What is queued -/

/-- Functions of such connections are queued, and the loops are where they were. -/
structure Adds (P : ConnectionPtr → Prop) (s s' : Sys n) : Prop where
  kept : s'.kept = s.kept
  loops : ∀ l, ∃ fs, s'.loops l =
    { s.loops l with pendingFunctions_ := (s.loops l).pendingFunctions_ ++ fs } ∧
      ∀ f ∈ fs, P f.conn

lemma Adds.nothing (hk : s'.kept = s.kept) (hl : s'.loops = s.loops) : Adds P s s' :=
  ⟨hk, fun l => ⟨[], by simp [hl], fun f hf => by cases hf⟩⟩

lemma Adds.refl (s : Sys n) : Adds (fun _ => False) s s := .nothing rfl rfl

lemma Adds.mono (h : Adds P s s') (hpq : ∀ d, P d → Q d) : Adds Q s s' :=
  ⟨h.kept, fun l => (h.loops l).imp fun _ hfs => ⟨hfs.1, fun f hf => hpq _ (hfs.2 f hf)⟩⟩

lemma Adds.trans (h : Adds P s s') (h' : Adds P s' s'') : Adds P s s'' := by
  refine ⟨h'.kept.trans h.kept, fun l => ?_⟩
  obtain ⟨fs, hl, hfs⟩ := h.loops l
  obtain ⟨fs', hl', hfs'⟩ := h'.loops l
  refine ⟨fs ++ fs', by rw [hl', hl]; simp, fun f hf => ?_⟩
  rcases List.mem_append.mp hf with hf | hf
  exacts [hfs f hf, hfs' f hf]

lemma adds_queueInLoop (s : Sys n) (l : Fin (n + 1)) (fs : List Functor)
    (h : ∀ f ∈ fs, P f.conn) : Adds P s (s.queueInLoop l fs) := by
  refine ⟨rfl, fun l' => ?_⟩
  by_cases hl : l' = l
  · subst hl
    exact ⟨fs, Function.update_self .., h⟩
  · refine ⟨[], ?_, fun f hf => by cases hf⟩
    rw [Sys.queueInLoop, Sys.setLoop]
    simp [hl]

lemma connectionCloseInLoop_adds (h : s.connectionCloseInLoop c = .ok s') : Adds P s s' := by
  unfold Sys.connectionCloseInLoop at h
  split at h
  · cases h
  · obtain rfl := Except.ok.inj h
    exact .nothing rfl rfl

/-- A call queues functions of its own connection, if it leaves any or closes. -/
lemma apply_adds {f : Connection → Result Connection} (h : s.apply c f = .ok s') :
    ∃ k, f (s.view c).called = .ok k ∧
      Adds (fun d => d = c ∧ (k.pendingFunctions_ ≠ [] ∨ .connectCloseCallBack ∈ k.log)) s s' := by
  have hcalled : { s.conns c with pendingFunctions_ := [], log := [] } = (s.view c).called := rfl
  rw [Sys.apply, hcalled] at h
  cases hf : f (s.view c).called with
  | error e => rw [hf] at h; cases h
  | ok k =>
    rw [hf] at h
    dsimp only at h
    set t : Sys n := { s with conns := Function.update s.conns c k } with ht
    have hset : Adds (fun d => d = c ∧
        (k.pendingFunctions_ ≠ [] ∨ .connectCloseCallBack ∈ k.log)) s t := .nothing rfl rfl
    have hqueue := hset.trans <| adds_queueInLoop t (s.loop_ c)
      (k.pendingFunctions_.map fun a => ⟨c, .task a⟩) fun g hg => by
        obtain ⟨a, ha, rfl⟩ := List.mem_map.mp hg
        exact ⟨rfl, .inl (List.ne_nil_of_mem ha)⟩
    refine ⟨k, rfl, hqueue.trans ?_⟩
    split_ifs at h with hlog
    · unfold Sys.connectionClose at h
      split_ifs at h
      · exact connectionCloseInLoop_adds h
      · obtain rfl := Except.ok.inj h
        refine adds_queueInLoop _ _ _ fun g hg => ?_
        rw [List.mem_singleton.mp hg]
        exact ⟨rfl, .inr (closes_iff.mp hlog)⟩
    · obtain rfl := Except.ok.inj h
      exact .nothing rfl rfl

lemma addConnection_adds (s : Sys n) (fresh : Connection) (loop : Fin (n + 1))
    (pool : EventLoopThreadPool (Fin (n + 1))) :
    Adds (· = s.server.names.length) s (s.addConnection fresh loop pool) := by
  refine Adds.trans ?_ (adds_queueInLoop _ loop [⟨s.server.names.length, .connectEstablished⟩]
    fun f hf => ?_)
  · exact .nothing rfl rfl
  · rw [List.mem_singleton.mp hf]

lemma runCallBack_adds {results : List ReadResult} {written : Option ℕ} {cb : Channel.CallBack}
    (h : s.runCallBack l c results written cb = .ok s') : Adds (· = c) s s' := by
  unfold Sys.runCallBack at h
  split_ifs at h
  obtain ⟨k, -, hadds⟩ := apply_adds h
  exact hadds.mono fun d hd => hd.1

/-- A function that is run queues others of its connection, unless it is one that a closed
connection may still have. -/
lemma runFunctor_adds {f : Functor} {written : Option ℕ} (h : s.runFunctor l f written = .ok s') :
    Adds (fun d => d = f.conn ∧ ¬ ((s.view f.conn).called.Begun ∧
      (s.conns f.conn).state_ = .Disconnected ∧ f.run ≠ .connectEstablished)) s s' := by
  obtain ⟨c, b⟩ := f
  have halive : ¬ s.alive c = false := fun hdead => by
    rw [Sys.runFunctor, if_pos hdead] at h
    cases h
  rw [Sys.runFunctor, if_neg halive] at h
  have hcall : ∀ t : Task, s.apply c (fun k => k.runTask written t) = .ok s' →
      Adds (fun d => d = c ∧ ¬ ((s.view c).called.Begun ∧ (s.conns c).state_ = .Disconnected ∧
        Bound.task t ≠ .connectEstablished)) s s' := by
    intro t ht
    obtain ⟨k, hk, hadds⟩ := apply_adds ht
    refine hadds.mono fun d hd => ⟨hd.1, ?_⟩
    rintro ⟨hbegun, hcl, -⟩
    obtain ⟨-, hpending, -, hclose⟩ := hbegun.runTask hk
    rcases hd.2 with hp | hlog
    · exact hp hpending
    · by_cases hforce : t = .forceCloseInLoop
      · subst hforce
        have hcl : (s.view c).called.state_ = .Disconnected := hcl
        obtain rfl := Except.ok.inj hk
        simp [Connection.forceCloseInLoop, hcl] at hlog
        exact hbegun.log hlog
      · exact hclose hforce hlog
  cases b with
  | connectEstablished =>
    dsimp only at h
    split_ifs at h
    obtain ⟨k, -, hadds⟩ := apply_adds h
    exact hadds.mono fun d hd => ⟨hd.1, fun hno => hno.2.2 rfl⟩
  | connectionCloseInLoop =>
    dsimp only at h
    split_ifs at h
    exact connectionCloseInLoop_adds h
  | task t =>
    cases t with
    | messageSendCallBack => exact hcall _ h
    | sendInLoop | shutDownInLoop | forceCloseInLoop =>
      dsimp only at h
      split_ifs at h
      exact hcall _ h

/-! ### Rounds -/

/-- The functions of this round are done. -/
def LoopThread.atEnd (t : LoopThread) : Bool :=
  match t.pc with
  | .functions [] _ => true
  | _ => false

/-- The step ends a round of the loop. -/
def Sys.endsRound (s : Sys n) (l : Fin (n + 1)) : Action n → Bool
  | .loop l' .. => decide (l = l') && (s.loops l).atEnd
  | _ => false

/-- How often the loop comes round in a run. -/
abbrev rounds (received sent : Bool) (l : Fin (n + 1)) : Sys n → List (Action n) → ℕ :=
  tally (step received sent) fun s a => s.endsRound l a = true

/-- After how many rounds the loop has let go of the functions of the connection. -/
def LoopThread.roundsLeft (t : LoopThread) (c : ConnectionPtr) : ℕ :=
  match t.pc with
  | .functions left ran =>
    if c ∈ t.pendingFunctions_.map Functor.conn then 2
    else if c ∈ (left ++ ran).map Functor.conn then 1 else 0
  | _ => if c ∈ t.pendingFunctions_.map Functor.conn then 1 else 0

lemma loops_setLoop (s : Sys n) (l l' : Fin (n + 1)) (t : LoopThread) :
    (s.setLoop l t).loops l' = if l' = l then t else s.loops l' :=
  Function.update_apply ..

lemma Adds.pc (h : Adds P s s') (l : Fin (n + 1)) : (s'.loops l).pc = (s.loops l).pc := by
  obtain ⟨fs, hl, -⟩ := h.loops l
  rw [hl]

lemma Adds.guarded (h : Adds P s s') (l : Fin (n + 1)) :
    (s'.loops l).guarded = (s.loops l).guarded := by
  rw [LoopThread.guarded, LoopThread.guarded, h.pc]

/-- Functions of other connections are queued. -/
lemma Adds.waits (h : Adds P s s') (hp : ¬ P c) (l : Fin (n + 1)) :
    c ∈ (s'.loops l).pendingFunctions_.map Functor.conn ↔
      c ∈ (s.loops l).pendingFunctions_.map Functor.conn := by
  obtain ⟨fs, hl, hfs⟩ := h.loops l
  rw [hl, List.map_append, List.mem_append]
  refine or_iff_left fun hmem => ?_
  obtain ⟨f, hf, rfl⟩ := List.mem_map.mp hmem
  exact hp (hfs f hf)

lemma Adds.roundsLeft (h : Adds P s s') (hp : ¬ P c) (l : Fin (n + 1)) :
    (s'.loops l).roundsLeft c = (s.loops l).roundsLeft c := by
  simp only [LoopThread.roundsLeft, h.pc, h.waits hp l]

/-! ### A connection that is closed -/

/-- The connection is closed, and no user keeps it. -/
structure Leaving (s : Sys n) (c : ConnectionPtr) : Prop where
  made : c < s.server.names.length
  closed : (s.conns c).state_ = .Disconnected
  kept : c ∉ s.kept

/-- No event of it is handled any more. -/
structure Left (s : Sys n) (c : ConnectionPtr) : Prop extends Leaving s c where
  unguarded : ∀ l, (s.loops l).guarded ≠ some c

variable {results : List ReadResult} {written : Option ℕ}

/-- No event of a closed connection is left to be handled. -/
lemma Leaving.inactive (h : Leaving s c) (hg : (s.view c).Good) (l : Fin (n + 1)) :
    c ∉ (s.loops l).active := by
  intro hmem
  have hkept := (hg.active l (List.count_pos_iff.mpr hmem)).2.2.2 h.closed
  exact h.kept (List.count_pos_iff.mp hkept)

/-- A step of a loop takes up no event of a closed connection. -/
lemma loopStep_guarded (h : Leaving s c) (hg : (s.view c).Good)
    (hs : LoopStep s l results written s') : s'.kept = s.kept ∧
      ∀ l', (s'.loops l').guarded = some c →
        (s.loops l').guarded = some c ∧ ¬ (l' = l ∧ (s.loops l').atEnd = true) := by
  -- the loop goes on, after functions were queued
  have hmoves : ∀ {P s1 t}, Adds P s s1 →
      (t.guarded = some c → (s.loops l).guarded = some c ∧ (s.loops l).atEnd = false) →
      (s1.setLoop l t).kept = s.kept ∧ ∀ l', ((s1.setLoop l t).loops l').guarded = some c →
        (s.loops l').guarded = some c ∧ ¬ (l' = l ∧ (s.loops l').atEnd = true) := by
    intro P s1 t hadds ht
    refine ⟨hadds.kept, fun l' hl' => ?_⟩
    rw [loops_setLoop] at hl'
    split_ifs at hl' with heq
    · subst heq
      obtain ⟨hguard, hend⟩ := ht hl'
      exact ⟨hguard, by simp [hend]⟩
    · exact ⟨(hadds.guarded l') ▸ hl', fun he => heq he.1⟩
  cases hs with
  | poll hpc | letGo hpc | swap hpc | done hpc =>
    exact hmoves (.refl s) fun hguard => by cases hguard
  | @take d ev active hpc halive =>
    refine hmoves (.refl s) fun hguard => ?_
    obtain rfl : d = c := Option.some.inj hguard
    exact absurd (by rw [loops_eq hpc]; exact List.mem_cons_self ..) (h.inactive hg l)
  | @call d cb cbs active s1 hpc hr =>
    refine hmoves (runCallBack_adds hr) fun hguard => ?_
    rw [loops_eq hpc]
    exact ⟨hguard, rfl⟩
  | run hpc hr => exact hmoves (runFunctor_adds hr) fun hguard => by cases hguard

/-- A closed connection is not to be established. -/
lemma Leaving.established (h : Leaving s c) (hg : (s.view c).Good)
    (hmem : ⟨c, .connectEstablished⟩ ∈ (s.loops l).todo) : False := by
  have hb := mem_todoOf.mpr hmem
  have hloop := hg.inLoop l _ hb (by simp)
  have hcount := hg.established
  rw [if_neg (by rw [show (s.view c).conn = s.conns c from rfl, h.closed]; simp),
    ← hloop, List.count_eq_zero] at hcount
  exact hcount hb

/-- A step of a loop adds nothing of a connection that is left to the queues, and at the end of a
round less is to be run. -/
lemma loopStep_rounds (h : Left s c) (hg : (s.view c).Good)
    (hs : LoopStep s l results written s') (l' : Fin (n + 1)) :
    (s'.loops l').roundsLeft c ≤
      (s.loops l').roundsLeft c - if l' = l ∧ (s.loops l').atEnd = true then 1 else 0 := by
  have hmoves : ∀ {P s1 t}, Adds P s s1 → ¬ P c →
      t.roundsLeft c ≤ (s1.loops l).roundsLeft c - (if (s.loops l).atEnd then 1 else 0) →
      ((s1.setLoop l t).loops l').roundsLeft c ≤
        (s.loops l').roundsLeft c - if l' = l ∧ (s.loops l').atEnd = true then 1 else 0 := by
    intro P s1 t hadds hp ht
    rw [loops_setLoop, ← hadds.roundsLeft hp l']
    split_ifs with heq hend hend
    · subst heq
      rwa [if_pos hend.2] at ht
    · subst heq
      rwa [if_neg (by simpa using hend)] at ht
    · exact absurd hend.1 heq
    · exact le_rfl
  cases hs with
  | poll hpc | take hpc | letGo hpc | swap hpc =>
    refine hmoves (.refl s) id ?_
    rw [loops_eq hpc]
    simp [LoopThread.roundsLeft, LoopThread.atEnd]
  | done hpc =>
    refine hmoves (.refl s) id ?_
    rw [loops_eq hpc]
    simp only [LoopThread.roundsLeft, LoopThread.atEnd, if_true]
    split_ifs <;> omega
  | @call d cb cbs active s1 hpc hr =>
    have hd : ¬ c = d := by
      rintro rfl
      exact h.unguarded l (by rw [loops_eq hpc]; rfl)
    have hadds := runCallBack_adds hr
    refine hmoves hadds hd ?_
    have hpc' := (hadds.pc l).trans hpc
    rw [loops_eq hpc, loops_eq hpc']
    simp [LoopThread.roundsLeft, LoopThread.atEnd]
  | @run f left ran s1 hpc hr =>
    have hadds := runFunctor_adds hr
    refine hmoves hadds ?_ ?_
    · rintro ⟨rfl, hno⟩
      have hst : (s.view f.conn).conn.state_ ≠ .Connecting := by
        rw [show (s.view f.conn).conn = s.conns f.conn from rfl, h.closed]
        simp
      refine hno ⟨hg.called_begun hst, h.closed, fun hrun => ?_⟩
      refine h.toLeaving.established (l := l) hg ?_
      rw [loops_eq hpc, ← hrun]
      exact List.mem_cons_self ..
    · have hpc' := (hadds.pc l).trans hpc
      rw [loops_eq hpc, loops_eq hpc']
      have hmem : c ∈ (left ++ (ran ++ [f])).map Functor.conn ↔
          c ∈ (f :: left ++ ran).map Functor.conn := by
        simp only [List.map_append, List.map_cons, List.mem_append, List.mem_cons]
        tauto
      simp only [LoopThread.roundsLeft, LoopThread.atEnd, hmem, Bool.false_eq_true, if_false,
        Nat.sub_zero, le_refl]

/-! ### Steps -/

variable {received sent : Bool} {a : Action n}

/-- A closed connection stays closed in every call but the one that establishes it. -/
lemma Call.closed {k k' : Connection} (h : k.Begun) (hcl : k.state_ = .Disconnected) {call : Call}
    (hne : call ≠ .connectEstablished) (hr : call.run k = .ok k') :
    k'.state_ = .Disconnected := by
  have hout : k.Outcome k' := by
    cases call with
    | connectEstablished => exact absurd rfl hne
    | callBack cb results written => exact (h.runCallBack hr).1
    | task t written => exact (h.runTask hr).1
    | send inLoop msg written => exact h.send hr
    | shutDown inLoop => exact h.shutDown hr
    | forceClose inLoop => exact h.forceClose hr
  exact hout.closed.mpr (.inl hcl)

lemma todo_of_calling (h : s.calling a = some (c, .connectEstablished)) :
    ∃ l, ⟨c, .connectEstablished⟩ ∈ (s.loops l).todo := by
  cases a with
  | loop l ready results written =>
    simp only [Sys.calling] at h
    split at h
    all_goals cases h
    rename_i hpc
    exact ⟨l, by rw [loops_eq hpc]; exact List.mem_cons_self ..⟩
  | send | shutDown | forceClose | newConnection | keep | release => cases h

/-- The connection stays where it is: made, and closed. -/
lemma step_closed (h : Inv gone s) (hl : Leaving s c) (ha : Careful s a)
    (hs : step received sent s a = .ok s') :
    c < s'.server.names.length ∧ (s'.conns c).state_ = .Disconnected := by
  by_cases hnew : a = .newConnection
  · subst hnew
    simp only [step, Sys.newConnection] at hs
    split at hs
    · cases hs
    · obtain rfl := Except.ok.inj hs
      refine ⟨?_, ?_⟩
      · have hlen := congrArg List.length (h.table.insert ha).2.1
        change c < s.server.newConnection.names.length
        rw [hlen, List.length_append]
        exact Nat.lt_add_right _ hl.made
      · change (Function.update s.conns s.server.names.length _ c).state_ = _
        rw [Function.update_of_ne hl.made.ne]
        exact hl.closed
  · have hdoes := step_does h hnew hs
    cases hcall : s.calling a with
    | none =>
      rw [hcall] at hdoes
      exact ⟨hdoes.names ▸ hl.made, by rw [(hdoes.rests c).conn]; exact hl.closed⟩
    | some e =>
      obtain ⟨d, call⟩ := e
      rw [hcall] at hdoes
      obtain ⟨-, hran, -, hothers, hnames⟩ := hdoes
      refine ⟨hnames ▸ hl.made, ?_⟩
      by_cases hd : c = d
      · subst hd
        have hg := h.good c hl.made
        have hst : (s.view c).conn.state_ ≠ .Connecting := by
          rw [show (s.view c).conn = s.conns c from rfl, hl.closed]
          simp
        refine Call.closed (hg.called_begun hst) hl.closed (fun he => ?_) hran
        obtain ⟨l, hmem⟩ := todo_of_calling (he ▸ hcall)
        exact hl.established hg hmem
      · rw [(hothers c hd).conn]
        exact hl.closed

/-- A user takes a pointer to the connection. -/
def Action.keeps (c : ConnectionPtr) : Action n → Bool
  | .keep d => d == c
  | _ => false

/-- What is not a step of a loop leaves the pointers of the loops alone. -/
lemma user_step (hl : Leaving s c) (hloop : ∀ l ready results written,
      a ≠ .loop l ready results written) (hkeep : a.keeps c = false)
    (hs : step received sent s a = .ok s') : c ∉ s'.kept ∧
      ∀ l, (s'.loops l).guarded = (s.loops l).guarded ∧
        (s'.loops l).roundsLeft c = (s.loops l).roundsLeft c := by
  have hadds : ∀ {P : ConnectionPtr → Prop}, Adds P s s' → ¬ P c → c ∉ s'.kept ∧
      ∀ l, (s'.loops l).guarded = (s.loops l).guarded ∧
        (s'.loops l).roundsLeft c = (s.loops l).roundsLeft c := fun h hp =>
    ⟨h.kept ▸ hl.kept, fun l => ⟨h.guarded l, h.roundsLeft hp l⟩⟩
  have hcall : ∀ {d : ConnectionPtr} {f : Connection → Result Connection},
      s.call d f = .ok s' → c ∉ s'.kept ∧
        ∀ l, (s'.loops l).guarded = (s.loops l).guarded ∧
          (s'.loops l).roundsLeft c = (s.loops l).roundsLeft c := by
    intro d f hs
    unfold Sys.call at hs
    split_ifs at hs with hk
    obtain ⟨k, -, h⟩ := apply_adds hs
    exact hadds h fun hd => hl.kept (hd.1 ▸ hk)
  cases a with
  | loop l ready results written => exact absurd rfl (hloop l ready results written)
  | newConnection =>
    simp only [step, Sys.newConnection] at hs
    split at hs
    · cases hs
    · obtain rfl := Except.ok.inj hs
      exact hadds (addConnection_adds s _ _ _) hl.made.ne
  | keep d =>
    simp only [step] at hs
    split_ifs at hs
    obtain rfl := Except.ok.inj hs
    have hd : d ≠ c := by simpa [Action.keeps] using hkeep
    exact ⟨by simp [hd.symm, hl.kept], fun l => ⟨rfl, rfl⟩⟩
  | release d =>
    obtain rfl := Except.ok.inj hs
    exact ⟨fun hmem => hl.kept (List.mem_of_mem_erase hmem), fun l => ⟨rfl, rfl⟩⟩
  | send | shutDown | forceClose => exact hcall hs

/-- A careful run in which no user takes a pointer to the connection. -/
def Unkept (c : ConnectionPtr) (s : Sys n) (a : Action n) : Prop :=
  Careful s a ∧ a.keeps c = false

instance (c : ConnectionPtr) (s : Sys n) (a : Action n) : Decidable (Unkept c s a) :=
  inferInstanceAs (Decidable (_ ∧ _))

/-- **A step leaves a closed connection closed**, takes up no event of it, and if no event of it is
handled, adds no function of it. -/
lemma step_leaving (h : Inv gone s) (hl : Leaving s c) (ha : Unkept c s a)
    (hs : step received sent s a = .ok s') :
    Leaving s' c ∧ (∀ l, (s'.loops l).guarded = some c →
      (s.loops l).guarded = some c ∧ s.endsRound l a = false) ∧
    (Left s c → ∀ l, (s'.loops l).roundsLeft c ≤
      (s.loops l).roundsLeft c - if s.endsRound l a = true then 1 else 0) := by
  obtain ⟨hmade, hclosed⟩ := step_closed h hl ha.1 hs
  have hg := h.good c hl.made
  by_cases hloop : ∃ l ready results written, a = .loop l ready results written
  · obtain ⟨l, ready, results, written, rfl⟩ := hloop
    have hcases := loopStep_cases hs
    obtain ⟨hkept, hguard⟩ := loopStep_guarded hl hg hcases
    refine ⟨⟨hmade, hclosed, hkept ▸ hl.kept⟩, fun l' hl' => ?_, fun hleft l' => ?_⟩
    · obtain ⟨hg', hend⟩ := hguard l' hl'
      exact ⟨hg', by simpa [Sys.endsRound] using hend⟩
    · have hrounds := loopStep_rounds hleft hg hcases l'
      simpa [Sys.endsRound] using hrounds
  · have hno : ∀ l ready results written, a ≠ .loop l ready results written :=
      fun l ready results written he => hloop ⟨l, ready, results, written, he⟩
    obtain ⟨hkept, hsame⟩ := user_step hl hno ha.2 hs
    have hend : ∀ l, s.endsRound l a = false := by
      cases a with
      | loop l ready results written => exact absurd rfl (hno l ready results written)
      | newConnection | keep | release | send | shutDown | forceClose => exact fun _ => rfl
    refine ⟨⟨hmade, hclosed, hkept⟩, fun l' hl' => ⟨(hsame l').1 ▸ hl', hend l'⟩,
      fun _ l' => ?_⟩
    rw [(hsame l').2, hend l']
    simp

/-- Nothing is left of the connection. -/
lemma dead_of_rounds (h : Inv gone s) (hl : Left s c)
    (hz : ∀ l, (s.loops l).roundsLeft c = 0) : s.alive c = false := by
  have hnone : ∀ l, ∀ f ∈ (s.loops l).todo ++ (s.loops l).ran, f.conn ≠ c := by
    rintro l f hf rfl
    have hzero := hz l
    simp only [LoopThread.roundsLeft, LoopThread.todo, LoopThread.ran] at hzero hf
    cases hpc : (s.loops l).pc with
    | functions left ran =>
      rw [hpc] at hzero hf
      dsimp only at hzero hf
      split_ifs at hzero with hp hw
      simp only [List.mem_append, List.map_append, List.mem_map, not_or, not_exists, not_and]
        at hp hw hf
      rcases hf with (hf | hf) | hf
      exacts [hw.1 f hf rfl, hp f hf rfl, hw.2 f hf rfl]
    | poll | events =>
      rw [hpc] at hzero hf
      dsimp only at hzero hf
      split_ifs at hzero with hp
      rw [List.append_nil] at hf
      exact hp (List.mem_map_of_mem hf)
  by_contra halive
  simp only [Sys.alive, Bool.not_eq_false, Bool.or_eq_true, decide_eq_true_eq] at halive
  rcases halive with (ht | hk) | ⟨l, hh⟩
  · have hclose := (h.good c hl.made).closing hl.closed ht
    exact hnone 0 _ (List.mem_append_left _ (mem_todoOf.mp hclose)) rfl
  · exact hl.kept (List.contains_iff_mem.mp hk)
  · simp only [LoopThread.holds, Bool.or_eq_true, beq_iff_eq, List.any_eq_true,
      Bool.and_eq_true] at hh
    rcases hh with hg | ⟨f, hf, hconn, -⟩
    · exact hl.unguarded l hg
    · exact hnone l f hf hconn

/-! ### The run -/

variable {port : ℤ} {name : Str} {as bs : List (Action n)} {t u : Sys n}

/-- The event under way is over after one round. -/
lemma left_of_round (h : Inv gone s) (hl : Leaving s c)
    (ha : Each (step received sent) (Unkept c) s as)
    (hs : exec (step received sent) s as = .ok t)
    (hround : ∀ l, 1 ≤ rounds received sent l s as) : Inv gone t ∧ Left t c := by
  have hstep : ∀ (l : Fin (n + 1)) (s : Sys n) a t, Inv gone s ∧ Leaving s c → Unkept c s a →
      step received sent s a = .ok t → (Inv gone t ∧ Leaving t c) ∧
        (if (t.loops l).guarded = some c then 1 else 0) ≤
          (if (s.loops l).guarded = some c then 1 else 0) -
            if s.endsRound l a = true then 1 else 0 := by
    rintro l s a t ⟨hinv, hl⟩ ha hs
    obtain ⟨hl', hguard, -⟩ := step_leaving hinv hl ha hs
    refine ⟨⟨(step_spec received sent hinv a ha.1).2 t hs, hl'⟩, ?_⟩
    split_ifs with h1 h2 h3 h3
    · rw [(hguard l h1).2] at h3; cases h3
    · exact le_rfl
    · exact absurd (hguard l h1).1 h2
    · exact absurd (hguard l h1).1 h2
    all_goals exact Nat.zero_le _
  obtain ⟨⟨hinv, hleaving⟩, -⟩ := exec_le_sub (hstep 0) ⟨h, hl⟩ ha hs
  refine ⟨hinv, hleaving, fun l hguard => ?_⟩
  have hle : (if (t.loops l).guarded = some c then 1 else 0) ≤
      (if (s.loops l).guarded = some c then 1 else 0) - rounds received sent l s as :=
    (exec_le_sub (hstep l) ⟨h, hl⟩ ha hs).2
  have hone := hround l
  rw [if_pos hguard] at hle
  split_ifs at hle <;> omega

lemma roundsLeft_le (t : LoopThread) (c : ConnectionPtr) : t.roundsLeft c ≤ 2 := by
  unfold LoopThread.roundsLeft
  split <;> split_ifs <;> omega

/-- The functions are done after two more. -/
lemma dead_of_two_rounds (h : Inv gone t) (hl : Left t c)
    (hb : Each (step received sent) (Unkept c) t bs)
    (ht : exec (step received sent) t bs = .ok u)
    (hround : ∀ l, 2 ≤ rounds received sent l t bs) : u.alive c = false := by
  have hstep : ∀ (l : Fin (n + 1)) (s : Sys n) a t, Inv gone s ∧ Left s c → Unkept c s a →
      step received sent s a = .ok t → (Inv gone t ∧ Left t c) ∧
        (t.loops l).roundsLeft c ≤
          (s.loops l).roundsLeft c - if s.endsRound l a = true then 1 else 0 := by
    rintro l s a t ⟨hinv, hl⟩ ha hs
    obtain ⟨hl', hguard, hrounds⟩ := step_leaving hinv hl.toLeaving ha hs
    exact ⟨⟨(step_spec received sent hinv a ha.1).2 t hs, hl',
      fun l hg => hl.unguarded l (hguard l hg).1⟩, hrounds hl l⟩
  obtain ⟨⟨hinv, hleft⟩, -⟩ := exec_le_sub (hstep 0) ⟨h, hl⟩ hb ht
  refine dead_of_rounds hinv hleft fun l => ?_
  have hle : (u.loops l).roundsLeft c ≤
      (t.loops l).roundsLeft c - rounds received sent l t bs :=
    (exec_le_sub (hstep l) ⟨h, hl⟩ hb ht).2
  have htwo := hround l
  have hmost := roundsLeft_le (t.loops l) c
  omega

/-- **A closed connection that no user keeps is destroyed in time**: when every loop has come round
once, and then twice more, whatever else happens meanwhile. -/
theorem destroyed_in_time (h : Reached received sent port name s) (hl : Leaving s c)
    (ha : Asks (step received sent) (Unkept c) s (as ++ bs))
    (hs : exec (step received sent) s as = .ok t) (ht : exec (step received sent) t bs = .ok u)
    (hfirst : ∀ l, 1 ≤ rounds received sent l s as)
    (hmore : ∀ l, 2 ≤ rounds received sent l t bs) : u.alive c = false := by
  obtain ⟨has, hbs⟩ := each_append.mp ha.each
  obtain ⟨hinv, hleft⟩ := left_of_round h.inv hl has hs hfirst
  exact dead_of_two_rounds hinv hleft (hbs t hs) ht hmore

/-- Both loops come round, with nothing to do in `poll`. -/
def idleRounds (k : ℕ) : List (Action 1) :=
  List.replicate k (.loop (.last 1) [] [] none) ++ List.replicate k (.loop baseLoop [] [] none)

/-- The event that closes the connection is under way. -/
theorem destroyed_in_time_one : ∃ s t u : Sys 1, Reached true true 80 (str "s") s ∧
    Leaving s 0 ∧ s.alive 0 = true ∧ exec (step true true) s (idleRounds 4) = .ok t ∧
    exec (step true true) t (idleRounds 6) = .ok u ∧ u.alive 0 = false := by
  have hclosing : Asks (step true true) Careful (start 80 (str "s"))
      (oneConnection ++ peerCloses.take 3) := by decide +kernel
  obtain ⟨s, hs, t, hst, u, htu, hmade, hcl, hkept, halive, hfirst, hmore, hasks⟩ : ∃ s : Sys 1,
      exec (step true true) (start 80 (str "s")) (oneConnection ++ peerCloses.take 3) = .ok s ∧
      ∃ t, exec (step true true) s (idleRounds 4) = .ok t ∧
      ∃ u, exec (step true true) t (idleRounds 6) = .ok u ∧
      0 < s.server.names.length ∧ (s.conns 0).state_ = .Disconnected ∧ 0 ∉ s.kept ∧
      s.alive 0 = true ∧ (∀ l, 1 ≤ rounds true true l s (idleRounds 4)) ∧
      (∀ l, 2 ≤ rounds true true l t (idleRounds 6)) ∧
      Asks (step true true) (Unkept 0) s (idleRounds 4 ++ idleRounds 6) :=
    ⟨_, rfl, _, rfl, _, rfl, by decide +kernel, by decide +kernel, by decide +kernel,
      by decide +kernel, by decide +kernel, by decide +kernel, by decide +kernel⟩
  exact ⟨s, t, u, ⟨_, hclosing, hs⟩, ⟨hmade, hcl, hkept⟩, halive, hst, htu,
    destroyed_in_time ⟨_, hclosing, hs⟩ ⟨hmade, hcl, hkept⟩ hasks hst htu hfirst hmore⟩

end MuduoZ.ServerRun
