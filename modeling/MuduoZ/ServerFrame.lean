import MuduoZ.ServerView

/-!
What the operations of the server do to the view of a connection, and leave of all other views.
-/

namespace MuduoZ.ServerRun

open Runs

variable {n : ℕ} {s s' : Sys n} {l : Fin (n + 1)} {c d : ConnectionPtr}

/-! ### What a step leaves alone -/

lemma view_setLoop (s : Sys n) (l : Fin (n + 1)) (t : LoopThread) (c : ConnectionPtr) :
    (s.setLoop l t).view c = { s.view c with
      todo := Function.update (s.view c).todo l (t.todoOf c)
      active := Function.update (s.view c).active l (t.active.count c)
      guarded := Function.update (s.view c).guarded l (t.guarded == some c) } := by
  ext1 <;> try rfl
  all_goals
    funext l'
    simp only [Sys.view, Sys.setLoop]
    by_cases hl : l' = l
    · subst hl; simp
    · simp [hl]

lemma view_setLoop_todo {t : LoopThread}
    (h2 : t.active.count c = (s.loops l).active.count c)
    (h3 : (t.guarded == some c) = ((s.loops l).guarded == some c)) :
    (s.setLoop l t).view c =
      { s.view c with todo := Function.update (s.view c).todo l (t.todoOf c) } := by
  rw [view_setLoop, h2, h3]
  ext1 <;> try rfl
  all_goals exact Function.update_eq_self ..

lemma view_setLoop_events {t : LoopThread} (h1 : t.todoOf c = (s.loops l).todoOf c) :
    (s.setLoop l t).view c = { s.view c with
      active := Function.update (s.view c).active l (t.active.count c)
      guarded := Function.update (s.view c).guarded l (t.guarded == some c) } := by
  rw [view_setLoop, h1]
  ext1 <;> try rfl
  exact Function.update_eq_self ..

lemma view_setLoop_same {t : LoopThread} (h1 : t.todoOf c = (s.loops l).todoOf c)
    (h2 : t.active.count c = (s.loops l).active.count c)
    (h3 : (t.guarded == some c) = ((s.loops l).guarded == some c)) :
    (s.setLoop l t).view c = s.view c := by
  rw [view_setLoop, h1, h2, h3]
  ext1 <;> try rfl
  all_goals exact Function.update_eq_self ..

lemma loops_eq {pc : Pc} (h : (s.loops l).pc = pc) :
    s.loops l = ⟨(s.loops l).pendingFunctions_, pc⟩ := by rw [← h]

@[simp] lemma todo_append (t : LoopThread) (fs : List Functor) :
    { t with pendingFunctions_ := t.pendingFunctions_ ++ fs }.todo = t.todo ++ fs := by
  obtain ⟨pending, pc⟩ := t
  cases pc <;> simp [LoopThread.todo]

lemma view_queueInLoop (s : Sys n) (l : Fin (n + 1)) (fs : List Functor) (c : ConnectionPtr) :
    (s.queueInLoop l fs).view c = { s.view c with
      todo := fun l' => (s.view c).todo l' ++
        if l' = l then (fs.filter (·.conn = c)).map Functor.run else [] } := by
  ext1 <;> try rfl
  all_goals
    funext l'
    simp only [Sys.view, Sys.queueInLoop, Sys.setLoop, LoopThread.todoOf]
    by_cases hl : l' = l
    · subst hl; simp [LoopThread.active, LoopThread.guarded]
    · simp [hl]

/-- What is queued for another connection is nothing to this one. -/
lemma view_queueInLoop_of_ne {fs : List Functor} (h : ∀ f ∈ fs, f.conn ≠ d) :
    (s.queueInLoop l fs).view d = s.view d := by
  rw [view_queueInLoop, List.filter_eq_nil_iff.mpr (by simpa using h)]
  simp

lemma view_setConn_of_ne (s : Sys n) (k : Connection) (h : d ≠ c) :
    { s with conns := Function.update s.conns c k }.view d = s.view d := by
  simp [Sys.view, h]

/-- The first function of the loop is taken off, which is nothing to other connections. -/
lemma view_pop {f : Functor} {left ran : List Functor}
    (hpc : (s.loops l).pc = .functions (f :: left) ran) (ran' : List Functor) :
    (s.setPc l (.functions left ran')).view f.conn = (s.view f.conn).pop l ∧
      ∀ d, d ≠ f.conn → (s.setPc l (.functions left ran')).view d = s.view d := by
  have hloop := loops_eq hpc
  constructor
  · have htodo : (s.view f.conn).todo l = f.run :: ((left ++ (s.loops l).pendingFunctions_).filter
        (·.conn = f.conn)).map Functor.run := by
      change (s.loops l).todoOf f.conn = _
      rw [hloop]
      simp [LoopThread.todoOf, LoopThread.todo]
    rw [Sys.setPc, view_setLoop_todo (by rw [hloop]; rfl) (by rw [hloop]; rfl), View.pop, htodo,
      List.tail_cons]
    rfl
  · intro d hd
    refine view_setLoop_same ?_ ?_ ?_ <;> rw [hloop]
    · simp [LoopThread.todoOf, LoopThread.todo, hd.symm]
    · rfl
    · rfl

/-- The loops are where they were. -/
def SamePlace (s s' : Sys n) : Prop := ∀ l, (s'.loops l).pc = (s.loops l).pc

lemma queueInLoop_place (s : Sys n) (l : Fin (n + 1)) (fs : List Functor) :
    SamePlace s (s.queueInLoop l fs) := by
  intro l'
  simp only [Sys.queueInLoop, Sys.setLoop]
  by_cases hl : l' = l
  · subst hl; rw [Function.update_self]
  · rw [Function.update_of_ne hl]

lemma SamePlace.ran (h : SamePlace s s') (l : Fin (n + 1)) :
    (s'.loops l).ran = (s.loops l).ran := by
  simp only [LoopThread.ran, h l]

/-! ### The table -/

/-- The connections have different names, made from their numbers, and the table holds them under
these. -/
structure Table (t : TcpServer) : Prop where
  distinct : t.names.Nodup
  named : ∀ e ∈ t.connectionMap_, t.names[e.2]? = some e.1
  id : t.connectionId_ = t.names.length % 2 ^ 64
  numbered : ∀ c < t.names.length, t.names[c]? = some (t.nameOf c)

lemma Table.erase {t : TcpServer} (h : Table t) (hc : c < t.names.length) :
    ∃ t', t.connectionCloseInLoop c = .ok t' ∧ Table t' ∧ t'.names = t.names ∧
      ∀ d, t'.connectionMap_.any (fun e => e.2 == d) =
        (t.connectionMap_.any (fun e => e.2 == d) && !decide (d = c)) := by
  have hname : t.getName c = some t.names[c] := List.getElem?_eq_getElem hc
  have hiff : ∀ e ∈ t.connectionMap_, e.1 = t.names[c] ↔ e.2 = c := fun e he => by
    have hget := h.named e he
    obtain ⟨he2, hget⟩ := List.getElem?_eq_some_iff.mp hget
    rw [← hget]
    exact h.distinct.getElem_inj_iff
  refine ⟨{ t with connectionMap_ := SortedMap.erase t.names[c] t.connectionMap_ }, ?_, ?_, rfl,
    fun d => ?_⟩
  · rw [TcpServer.connectionCloseInLoop, hname]
  · exact ⟨h.distinct, fun e he => h.named e (List.mem_filter.mp he).1, h.id, h.numbered⟩
  · rw [Bool.eq_iff_iff]
    simp only [List.any_eq_true, SortedMap.erase, List.mem_filter, decide_eq_true_eq, beq_iff_eq,
      Bool.and_eq_true, Bool.not_eq_true', decide_eq_false_iff_not]
    constructor
    · rintro ⟨e, ⟨he, hne⟩, rfl⟩
      exact ⟨⟨e, he, rfl⟩, fun hec => hne ((hiff e he).mpr hec)⟩
    · rintro ⟨⟨e, he, rfl⟩, hne⟩
      exact ⟨e, ⟨he, fun h => hne ((hiff e he).mp h)⟩, rfl⟩

lemma Table.insert {t : TcpServer} (h : Table t) (hnew : t.nextName ∉ t.names) :
    Table t.newConnection ∧ t.newConnection.names = t.names ++ [t.nextName] ∧
      ∀ d, t.newConnection.connectionMap_.any (fun e => e.2 == d) =
        (decide (d = t.names.length) || t.connectionMap_.any fun e => e.2 == d) := by
  have hfresh : ∀ e ∈ t.connectionMap_, e.1 ≠ t.nextName := fun e he hn =>
    hnew (hn ▸ List.mem_of_getElem? (h.named e he))
  have hmem := SortedMap.mem_set_of_fresh (v := t.names.length) hfresh
  refine ⟨⟨?_, fun e he => ?_, ?_, fun c hc => ?_⟩, rfl, fun d => ?_⟩
  · exact List.nodup_append_comm.mpr (List.nodup_cons.mpr ⟨hnew, h.distinct⟩)
  · rcases (hmem e).mp he with rfl | he
    · exact List.getElem?_concat_length ..
    · have hget := h.named e he
      obtain ⟨hlt, -⟩ := List.getElem?_eq_some_iff.mp hget
      exact (List.getElem?_append_left hlt).trans hget
  · simp only [TcpServer.newConnection, h.id, Nat.mod_add_mod, List.length_append,
      List.length_singleton]
  · simp only [TcpServer.newConnection, List.length_append, List.length_singleton] at hc ⊢
    rcases Nat.lt_succ_iff_lt_or_eq.mp hc with hc | rfl
    · exact (List.getElem?_append_left hc).trans (h.numbered c hc)
    · rw [List.getElem?_concat_length, TcpServer.nextName_eq h.id]
      rfl
  · rw [Bool.eq_iff_iff]
    simp only [List.any_eq_true, TcpServer.newConnection, hmem, beq_iff_eq, Bool.or_eq_true,
      decide_eq_true_eq]
    constructor
    · rintro ⟨e, rfl | he, rfl⟩
      exacts [.inl rfl, .inr ⟨e, he, rfl⟩]
    · rintro (rfl | ⟨e, he, rfl⟩)
      exacts [⟨_, .inl rfl, rfl⟩, ⟨e, .inr he, rfl⟩]

/-- **With a short name the first 2 ^ 32 connections have names of their own.** -/
theorem Table.fresh {t : TcpServer} (h : Table t) (hroom : 11 ≤ t.room)
    (hlen : t.names.length < 2 ^ 32) : t.nextName ∉ t.names := by
  intro hmem
  obtain ⟨c, hc, hget⟩ := List.getElem_of_mem hmem
  have hname : t.nameOf c = t.nameOf t.names.length := by
    rw [← TcpServer.nextName_eq h.id, ← hget]
    exact (Option.some.inj ((List.getElem?_eq_getElem hc).symm.trans (h.numbered c hc))).symm
  have halike := (TcpServer.alike_iff hroom).mp (TcpServer.nameOf_eq_iff.mp hname)
  exact hc.ne (halike.eq_of_lt_of_lt (hc.trans hlen) hlen)

/-! ### Calls -/

/-- Only what concerns the connection is changed. -/
structure Frame (c : ConnectionPtr) (s s' : Sys n) : Prop where
  others : ∀ d, d ≠ c → s'.view d = s.view d
  names : s'.server.names = s.server.names
  table : Table s.server → Table s'.server

lemma Frame.trans {s'' : Sys n} (h : Frame c s s') (h' : Frame c s' s'') : Frame c s s'' :=
  ⟨fun d hd => (h'.others d hd).trans (h.others d hd), h'.names.trans h.names,
    fun ht => h'.table (h.table ht)⟩

lemma connectionCloseInLoop_spec (ht : Table s.server) (hc : c < s.server.names.length) :
    ∃ s', s.connectionCloseInLoop c = .ok s' ∧ Frame c s s' ∧ SamePlace s s' ∧
      s'.view c = { s.view c with inTable := false } := by
  obtain ⟨t, hok, htable, hnames, hany⟩ := ht.erase hc
  refine ⟨{ s with server := t }, ?_, ⟨fun d hd => ?_, hnames, fun _ => htable⟩, fun _ => rfl, ?_⟩
  · rw [Sys.connectionCloseInLoop, hok]
  · simp [Sys.view, hany, hd]
  · simp [Sys.view, hany]

/-- **What a call does**: its own connection as `View.apply` says, and no other. -/
theorem apply_spec (ht : Table s.server) (hc : c < s.server.names.length)
    {f : Connection → Result Connection} :
    (∃ e, f (s.view c).called = .error e ∧ s.apply c f = .error (.fault e)) ∨
    ∃ k s', f (s.view c).called = .ok k ∧ s.apply c f = .ok s' ∧ Frame c s s' ∧ SamePlace s s' ∧
      s'.view c = (s.view c).apply k := by
  have hcalled : { s.conns c with pendingFunctions_ := [], log := [] } = (s.view c).called := rfl
  cases hf : f (s.view c).called with
  | error e => exact .inl ⟨e, rfl, by simp only [Sys.apply, hcalled, hf]⟩
  | ok k =>
    set t : Sys n := { s with conns := Function.update s.conns c k } with htdef
    set u := t.queueInLoop (s.loop_ c) (k.pendingFunctions_.map fun a => ⟨c, .task a⟩) with hu
    have hframe : Frame c s u := ⟨fun d hd => by
      rw [hu, view_queueInLoop_of_ne, view_setConn_of_ne _ _ hd]
      rintro f hf rfl
      obtain ⟨a, -, rfl⟩ := List.mem_map.mp hf
      exact hd rfl, rfl, id⟩
    have hplace : SamePlace s u := queueInLoop_place t (s.loop_ c) _
    have hfilter : ((k.pendingFunctions_.map fun a => (⟨c, .task a⟩ : Functor)).filter
        (·.conn = c)).map Functor.run = k.pendingFunctions_.map .task := by
      rw [List.filter_eq_self.mpr (by simp), List.map_map]
      rfl
    have hview : u.view c = { s.view c with
        conn := k
        todo := fun l => (s.view c).todo l ++
          if l = (s.view c).loop_ then k.pendingFunctions_.map .task else [] } := by
      rw [hu, view_queueInLoop, hfilter]
      ext1 <;> try rfl
      exact Function.update_self ..
    have hdo : s.apply c f = if closes k then u.connectionClose c else .ok u := by
      simp only [Sys.apply, hcalled, hf]
      rfl
    have hloop : u.loop_ c = s.loop_ c := rfl
    rw [hdo]
    by_cases hlog : closes k = true
    · rw [if_pos hlog, Sys.connectionClose, hloop]
      by_cases hbase : s.loop_ c = 0
      · -- the base loop closes its own connection at once
        obtain ⟨s', hok, hframe', hplace', hview'⟩ :=
          connectionCloseInLoop_spec (s := u) (c := c) ht hc
        refine .inr ⟨k, s', rfl, by rw [if_pos hbase, hok], hframe.trans hframe',
          fun l => (hplace' l).trans (hplace l), ?_⟩
        rw [hview', hview]
        have hbase' : (s.view c).loop_ = 0 := hbase
        ext1 <;> simp [View.apply, hlog, hbase']
      · refine .inr ⟨k, _, rfl, if_neg hbase, hframe.trans ⟨fun d hd => ?_, rfl, id⟩, ?_, ?_⟩
        · exact view_queueInLoop_of_ne (by simpa using hd.symm)
        · exact fun l => (queueInLoop_place u 0 _ l).trans (hplace l)
        · rw [view_queueInLoop, hview]
          have hbase' : (s.view c).loop_ ≠ 0 := hbase
          ext1 <;> simp [View.apply, hlog, hbase']
    · rw [if_neg hlog]
      refine .inr ⟨k, u, rfl, rfl, hframe, hplace, ?_⟩
      rw [hview]
      ext1 <;> simp [View.apply, hlog]

/-! ### Who is alive -/

lemma alive_of_kept (h : 0 < (s.view c).kept) : s.alive c = true := by
  have hmem : c ∈ s.kept := List.count_pos_iff.mp h
  simp [Sys.alive, hmem]

lemma alive_of_inTable (h : (s.view c).inTable = true) : s.alive c = true := by
  have h : s.server.connectionMap_.any (fun e => e.2 == c) = true := h
  rw [Sys.alive, h]
  simp

lemma alive_of_holds (h : (s.loops l).holds c = true) : s.alive c = true := by
  simp only [Sys.alive, Bool.or_eq_true, decide_eq_true_eq]
  exact .inr ⟨l, h⟩

lemma alive_of_todo {f : Functor} (hf : f ∈ (s.loops l).todo) (hs : f.run.strong = true) :
    s.alive f.conn = true := by
  refine alive_of_holds (l := l) ?_
  simp only [LoopThread.holds, Bool.or_eq_true, List.any_eq_true, List.mem_append]
  exact .inr ⟨f, .inl hf, by simpa using hs⟩

lemma alive_of_guarded (h : (s.view c).guarded l = true) : s.alive c = true :=
  alive_of_holds (l := l) (Bool.or_eq_true_iff.mpr (.inl h))

lemma mem_todoOf {t : LoopThread} {b : Bound} : b ∈ t.todoOf c ↔ ⟨c, b⟩ ∈ t.todo := by
  simp only [LoopThread.todoOf, List.mem_map, List.mem_filter, decide_eq_true_eq]
  constructor
  · rintro ⟨⟨_, _⟩, ⟨hf, rfl⟩, rfl⟩; exact hf
  · exact fun hf => ⟨_, ⟨hf, rfl⟩, rfl⟩

lemma count_todoOf (t : LoopThread) (c : ConnectionPtr) (b : Bound) :
    (t.todoOf c).count b = t.todo.count ⟨c, b⟩ := by
  rw [LoopThread.todoOf]
  induction t.todo with
  | nil => rfl
  | cons f fs ih =>
    obtain ⟨c', b'⟩ := f
    by_cases hc : c' = c
    · subst hc
      by_cases hb : b' = b
      · subst hb; simp [ih]
      · rw [List.filter_cons_of_pos (by simp), List.map_cons, List.count_cons_of_ne hb, ih,
          List.count_cons_of_ne (by simpa using hb)]
    · rw [List.filter_cons_of_neg (by simpa using hc), ih, List.count_cons_of_ne (by simp [hc])]

/-- **A connection to which a plain pointer may be used is alive**: its events are to be handled,
or a function that is bound by `this` is queued. -/
lemma View.Good.alive (h : (s.view c).Good) (hraw : (∃ l, 0 < (s.view c).active l) ∨
    ∃ l, ∃ b ∈ (s.view c).todo l, b.strong = false) : s.alive c = true := by
  rcases hraw with ⟨l, hl⟩ | ⟨l, b, hb, hs⟩
  · by_cases hcl : (s.view c).conn.state_ = .Disconnected
    · exact alive_of_kept ((h.active l hl).2.2.2 hcl)
    · exact alive_of_inTable (h.opened hcl)
  · exact alive_of_kept (h.raw l b hb hs)

/-! ### A step of a loop -/

/-- What a step of a loop does when it goes through. -/
inductive LoopStep (s : Sys n) (l : Fin (n + 1)) (results : List ReadResult)
    (written : Option ℕ) : Sys n → Prop
  | poll {ready : List (ConnectionPtr × Events)} (pc : (s.loops l).pc = .poll)
      (h : s.Ready l ready) : LoopStep s l results written (s.setPc l (.events ready none))
  | take {c : ConnectionPtr} {ev : Events} {active : List (ConnectionPtr × Events)}
      (pc : (s.loops l).pc = .events ((c, ev) :: active) none) (h : s.alive c = true) :
      LoopStep s l results written (s.setPc l (.events active (some (c, Channel.callBacks ev))))
  | call {c : ConnectionPtr} {cb : Channel.CallBack} {cbs : List Channel.CallBack}
      {active : List (ConnectionPtr × Events)} {s' : Sys n}
      (pc : (s.loops l).pc = .events active (some (c, cb :: cbs)))
      (h : s.runCallBack l c results written cb = .ok s') :
      LoopStep s l results written (s'.setPc l (.events active (some (c, cbs))))
  | letGo {c : ConnectionPtr} {active : List (ConnectionPtr × Events)}
      (pc : (s.loops l).pc = .events active (some (c, []))) :
      LoopStep s l results written (s.setPc l (.events active none))
  | swap (pc : (s.loops l).pc = .events [] none) : LoopStep s l results written
      (s.setLoop l ⟨[], .functions (s.loops l).pendingFunctions_ []⟩)
  | run {f : Functor} {left ran : List Functor} {s' : Sys n}
      (pc : (s.loops l).pc = .functions (f :: left) ran)
      (h : s.runFunctor l f written = .ok s') :
      LoopStep s l results written (s'.setPc l (.functions left (ran ++ [f])))
  | done {ran : List Functor} (pc : (s.loops l).pc = .functions [] ran) :
      LoopStep s l results written (s.setPc l .poll)

lemma loopStep_cases {ready : List (ConnectionPtr × Events)} {results : List ReadResult}
    {written : Option ℕ} (h : s.loopStep l ready results written = .ok s') :
    LoopStep s l results written s' := by
  cases hpc : (s.loops l).pc with
  | poll =>
    simp only [Sys.loopStep, hpc] at h
    split_ifs at h with hready
    obtain rfl := Except.ok.inj h
    exact .poll hpc hready
  | events active handling =>
    rcases handling with _ | ⟨c, _ | ⟨cb, cbs⟩⟩
    · rcases active with _ | ⟨⟨c, ev⟩, active⟩
      · simp only [Sys.loopStep, hpc] at h
        obtain rfl := Except.ok.inj h
        exact .swap hpc
      · simp only [Sys.loopStep, hpc] at h
        split_ifs at h with halive
        obtain rfl := Except.ok.inj h
        exact .take hpc halive
    · simp only [Sys.loopStep, hpc] at h
      obtain rfl := Except.ok.inj h
      exact .letGo hpc
    · simp only [Sys.loopStep, hpc] at h
      cases hr : s.runCallBack l c results written cb with
      | error e => rw [hr] at h; cases h
      | ok s1 =>
        rw [hr] at h
        obtain rfl := Except.ok.inj h
        exact .call hpc hr
  | functions left ran =>
    rcases left with _ | ⟨f, left⟩
    · simp only [Sys.loopStep, hpc] at h
      obtain rfl := Except.ok.inj h
      exact .done hpc
    · simp only [Sys.loopStep, hpc] at h
      cases hr : s.runFunctor l f written with
      | error e => rw [hr] at h; cases h
      | ok s1 =>
        rw [hr] at h
        obtain rfl := Except.ok.inj h
        exact .run hpc hr

end MuduoZ.ServerRun
