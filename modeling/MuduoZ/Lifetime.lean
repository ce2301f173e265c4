import MuduoZ.ServerFrame

/-!
No connection is touched after it was destroyed, the table holds the open connections, and a closed
one is destroyed when nobody needs it.

A user who calls from another thread has to keep the connection until the call was carried out:
`send` and `shutDown` bind `this`. The rest is up to the server.
-/

namespace MuduoZ.ServerRun

open Runs

variable {n : ℕ} {s s' : Sys n} {l : Fin (n + 1)} {c d : ConnectionPtr}
  {gone : ConnectionPtr → Prop}

/-! ### The invariant -/

/-- The connection was made, and is not one of those given up. -/
structure Present (gone : ConnectionPtr → Prop) (s : Sys n) (c : ConnectionPtr) : Prop where
  made : c < s.server.names.length
  kept : ¬ gone c

/-- Every connection that was made is in order, and nothing refers to one that was not, or that is
gone. -/
structure Inv (gone : ConnectionPtr → Prop) (s : Sys n) : Prop where
  table : Table s.server
  made : ∀ c, gone c → c < s.server.names.length
  good : ∀ c < s.server.names.length, (s.view c).Good
  blank : ∀ c, ¬ Present gone s c → (s.view c).Blank
  ran : ∀ l, ∀ f ∈ (s.loops l).ran, f.run.strong = true → Present gone s f.conn

lemma Inv.present_of_todo (h : Inv gone s) {f : Functor} (hf : f ∈ (s.loops l).todo) :
    Present gone s f.conn := by
  by_contra hc
  have hnil := (h.blank f.conn hc).todo l
  have hmem : f.run ∈ (s.view f.conn).todo l := mem_todoOf.mpr hf
  rw [hnil] at hmem
  cases hmem

lemma Inv.present_of_alive (h : Inv gone s) (hc : s.alive c = true) : Present gone s c := by
  by_contra hno
  have hb := h.blank c hno
  simp only [Sys.alive, Bool.or_eq_true, decide_eq_true_eq] at hc
  rcases hc with (ht | hk) | ⟨l, hl⟩
  · have : (s.view c).inTable = true := ht
    rw [hb.inTable] at this
    cases this
  · have : s.kept.count c = 0 := hb.kept
    exact List.count_eq_zero.mp this (List.contains_iff_mem.mp hk)
  · simp only [LoopThread.holds, Bool.or_eq_true, List.any_eq_true, List.mem_append,
      Bool.and_eq_true, beq_iff_eq] at hl
    rcases hl with hg | ⟨f, hf | hf, rfl, hs⟩
    · have : (s.view c).guarded l = true := beq_iff_eq.mpr hg
      rw [hb.guarded] at this
      cases this
    · exact hno (h.present_of_todo hf)
    · exact hno (h.ran l f hf hs)

/-- One connection changes. -/
lemma Inv.frame (h : Inv gone s) (hc : Present gone s c) (hf : Frame c s s')
    (hp : SamePlace s s') (hg : (s'.view c).Good) : Inv gone s' := by
  have hpresent : ∀ d, Present gone s' d ↔ Present gone s d := fun d =>
    ⟨fun hd => ⟨hf.names ▸ hd.made, hd.kept⟩, fun hd => ⟨hf.names ▸ hd.made, hd.kept⟩⟩
  refine ⟨hf.table h.table, fun d hd => hf.names ▸ h.made d hd, fun d hd => ?_, fun d hd => ?_,
    fun l f hm hs => ?_⟩
  · by_cases hdc : d = c
    · rw [hdc]; exact hg
    · rw [hf.others d hdc]
      exact h.good d (hf.names ▸ hd)
  · rw [hpresent] at hd
    rw [hf.others d (by rintro rfl; exact hd hc)]
    exact h.blank d hd
  · rw [hp.ran] at hm
    exact (hpresent _).mpr (h.ran l f hm hs)

/-- A loop goes on to another place. -/
lemma Inv.setLoop (h : Inv gone s) {t : LoopThread}
    (hran : ∀ f ∈ t.ran, f.run.strong = true → Present gone s f.conn)
    (hgood : ∀ c < s.server.names.length, ((s.setLoop l t).view c).Good)
    (hblank : ∀ c, ¬ Present gone s c → (s.setLoop l t).view c = s.view c) :
    Inv gone (s.setLoop l t) := by
  have hpresent : ∀ d, Present gone (s.setLoop l t) d ↔ Present gone s d := fun d =>
    ⟨fun hd => ⟨hd.made, hd.kept⟩, fun hd => ⟨hd.made, hd.kept⟩⟩
  refine ⟨h.table, h.made, hgood, fun c hc => ?_, fun l' f hf hs => (hpresent _).mpr ?_⟩
  · rw [hpresent] at hc
    rw [hblank c hc]
    exact h.blank c hc
  · simp only [Sys.setLoop] at hf
    by_cases hl : l' = l
    · subst hl; rw [Function.update_self] at hf; exact hran f hf hs
    · rw [Function.update_of_ne hl] at hf; exact h.ran l' f hf hs

/-- The loop goes on, and that is nothing to any connection. -/
lemma Inv.setLoop_same (h : Inv gone s) {t : LoopThread} (hran : t.ran = [])
    (hsame : ∀ c, (s.setLoop l t).view c = s.view c) : Inv gone (s.setLoop l t) :=
  h.setLoop (fun f hf => by rw [hran] at hf; cases hf) (fun c hc => (hsame c).symm ▸ h.good c hc)
    fun c _ => hsame c

/-! ### Steps of a loop -/

/-- The step does not come to a connection that was destroyed, and no `assertInLoopThread` fails. -/
def Safe (r : Except Stop (Sys n)) : Prop := r ≠ .error .freed ∧ r ≠ .error .aborted

/-- The step is safe, and keeps the invariant. -/
def Keeps (gone : ConnectionPtr → Prop) (r : Except Stop (Sys n)) : Prop :=
  Safe r ∧ ∀ s, r = .ok s → Inv gone s

lemma safe_fault (e : Fault) : Safe (n := n) (.error (.fault e)) := ⟨by simp, by simp⟩

lemma safe_ok (s : Sys n) : Safe (.ok s) := ⟨by simp, by simp⟩

lemma keeps_ok (h : Inv gone s) : Keeps gone (.ok s) :=
  ⟨safe_ok s, fun u hu => by obtain rfl := Except.ok.inj hu; exact h⟩

lemma keeps_impossible : Keeps (n := n) gone (.error .impossible) :=
  ⟨⟨by simp, by simp⟩, fun u hu => by cases hu⟩

lemma keeps_fault (e : Fault) : Keeps (n := n) gone (.error (.fault e)) :=
  ⟨safe_fault e, fun u hu => by cases hu⟩

lemma runFunctor_task {t : Connection.Task} {written : Option ℕ} (ha : s.alive c = true)
    (hl : l = s.loop_ c) :
    s.runFunctor l ⟨c, .task t⟩ written = s.apply c fun k => k.runTask written t := by
  unfold Sys.runFunctor
  rw [if_neg (by simp [ha])]
  cases t <;> simp [hl]

lemma runFunctor_establish {written : Option ℕ} (ha : s.alive c = true) (hl : l = s.loop_ c) :
    s.runFunctor l ⟨c, .connectEstablished⟩ written =
      s.apply c fun k => .ok k.connectEstablished := by
  simp [Sys.runFunctor, ha, hl]

lemma runFunctor_close {written : Option ℕ} (ha : s.alive c = true) :
    s.runFunctor 0 ⟨c, .connectionCloseInLoop⟩ written = s.connectionCloseInLoop c := by
  simp [Sys.runFunctor, ha]

/-- A queued function is run: it is safe, and the connection is in order when the function is
taken off. -/
lemma runFunctor_spec (h : Inv gone s) {f : Functor} {fs : List Functor}
    (hl : (s.loops l).todo = f :: fs) (hact : (s.loops l).active = []) (written : Option ℕ) :
    Safe (s.runFunctor l f written) ∧ ∀ s', s.runFunctor l f written = .ok s' →
      Frame f.conn s s' ∧ SamePlace s s' ∧ ((s'.view f.conn).pop l).Good := by
  obtain ⟨c, b⟩ := f
  have hmem : (⟨c, b⟩ : Functor) ∈ (s.loops l).todo := by rw [hl]; exact List.mem_cons_self ..
  have hc := (h.present_of_todo hmem).made
  have hg := h.good c hc
  have htodo : (s.view c).todo l = b :: (fs.filter (·.conn = c)).map Functor.run := by
    change (s.loops l).todoOf c = _
    simp [LoopThread.todoOf, hl]
  have hb : b ∈ (s.view c).todo l := by rw [htodo]; exact List.mem_cons_self ..
  have halive : s.alive c = true := by
    cases hs : b.strong with
    | true => exact alive_of_todo hmem hs
    | false => exact hg.alive (.inr ⟨l, b, hb, hs⟩)
  have hnone : ∀ l', l = s.loop_ c → (s.view c).active l' = 0 := fun l' hloop => by
    by_contra hne
    obtain ⟨rfl, hone, -⟩ := hg.active l' (Nat.pos_of_ne_zero hne)
    have hzero : (s.view c).active l = 0 := by
      change (s.loops l).active.count c = 0
      rw [hact, List.count_nil]
    rw [hloop] at hzero
    exact hne hzero
  cases b with
  | connectEstablished =>
    obtain ⟨hloop, hgood⟩ := hg.establish htodo
    rw [runFunctor_establish halive hloop]
    rcases apply_spec h.table hc (f := fun k => .ok k.connectEstablished) with
      ⟨e, he, -⟩ | ⟨k, s', hk, hs', hf, hp, hv⟩
    · cases he
    · rw [hs']
      obtain rfl := Except.ok.inj hk
      refine ⟨safe_ok _, fun u hu => ?_⟩
      obtain rfl := Except.ok.inj hu
      exact ⟨hf, hp, by rw [hv]; exact hgood⟩
  | connectionCloseInLoop =>
    obtain ⟨rfl, hgood⟩ := hg.erase htodo
    obtain ⟨s', hs', hf, hp, hv⟩ := connectionCloseInLoop_spec h.table hc
    rw [runFunctor_close halive, hs']
    refine ⟨safe_ok _, fun u hu => ?_⟩
    obtain rfl := Except.ok.inj hu
    exact ⟨hf, hp, by rw [hv]; exact hgood⟩
  | task t =>
    have hloop : l = s.loop_ c := hg.inLoop l _ hb (by simp)
    have hst := hg.begun l t hb
    rw [runFunctor_task halive hloop]
    rcases apply_spec h.table hc (f := fun k => k.runTask written t) with
      ⟨e, -, he⟩ | ⟨k, s', hk, hs', hf, hp, hv⟩
    · rw [he]
      exact ⟨safe_fault e, fun u hu => by cases hu⟩
    · rw [hs']
      refine ⟨safe_ok _, fun u hu => ?_⟩
      obtain rfl := Except.ok.inj hu
      obtain ⟨hout, hpending, hquiet, hclose⟩ := (hg.called_begun hst).runTask hk
      refine ⟨hf, hp, ?_⟩
      have hgood : ((s.view c).apply k).Good := by
        refine hg.apply hst hout (.inr fun t' ht' => ?_) ?_ ?_
        · rw [hpending] at ht'; cases ht'
        · cases ht : (Bound.task t).strong with
          | false => exact .inl (hg.raw l _ hb ht)
          | true => exact .inr (hquiet fun msg hmsg => by rw [hmsg] at ht; cases ht)
        · by_cases hforce : t = .forceCloseInLoop
          · exact .inr (.inr fun l' => hnone l' hloop)
          · exact .inr (.inl (hclose hforce))
      obtain ⟨bs, hbs⟩ : ∃ bs, ((s.view c).apply k).todo l = .task t :: bs := by
        simp only [View.apply, htodo, List.cons_append]
        exact ⟨_, rfl⟩
      rw [hv]
      exact hgood.pop hbs


/-- The function that was run is taken off. -/
lemma Inv.pop (h : Inv gone s) {f : Functor} {left ran : List Functor}
    (hpc : (s.loops l).pc = .functions (f :: left) ran) (hf : Frame f.conn s s')
    (hp : SamePlace s s') (hg : ((s'.view f.conn).pop l).Good) :
    Inv gone (s'.setPc l (.functions left (ran ++ [f]))) := by
  have hf0 : Present gone s f.conn :=
    h.present_of_todo (l := l) (by rw [loops_eq hpc]; exact List.mem_cons_self ..)
  have hran := h.ran l
  rw [loops_eq hpc] at hran
  obtain ⟨hself, hsame⟩ := view_pop ((hp l).trans hpc) (ran ++ [f])
  have hother : ∀ d, d ≠ f.conn →
      (s'.setPc l (.functions left (ran ++ [f]))).view d = s.view d := fun d hd =>
    (hsame d hd).trans (hf.others d hd)
  have hnames : (s'.setPc l (.functions left (ran ++ [f]))).server.names = s.server.names :=
    hf.names
  have hpresent : ∀ d, Present gone (s'.setPc l (.functions left (ran ++ [f]))) d ↔
      Present gone s d := fun d =>
    ⟨fun hd => ⟨hnames ▸ hd.made, hd.kept⟩, fun hd => ⟨hnames ▸ hd.made, hd.kept⟩⟩
  refine ⟨hf.table h.table, fun d hd => hnames ▸ h.made d hd, fun d hd => ?_, fun d hd => ?_,
    fun l' g hm hs => (hpresent _).mpr ?_⟩
  · by_cases hdf : d = f.conn
    · rw [hdf, hself]; exact hg
    · rw [hother d hdf]; exact h.good d (hnames ▸ hd)
  · rw [hpresent] at hd
    rw [hother d (by rintro rfl; exact hd hf0)]
    exact h.blank d hd
  · simp only [Sys.setPc, Sys.setLoop] at hm
    by_cases hl : l' = l
    · subst hl
      rw [Function.update_self] at hm
      rcases List.mem_append.mp hm with hm | hm
      · exact hran g hm hs
      · rw [List.mem_singleton.mp hm]; exact hf0
    · rw [Function.update_of_ne hl, hp.ran] at hm
      exact h.ran l' g hm hs

/-- A callback of a guarded connection is run by its own loop. -/
lemma runCallBack_spec (h : Inv gone s) (hguard : (s.view c).guarded l = true)
    (results : List ReadResult) (written : Option ℕ) (cb : Channel.CallBack) :
    Safe (s.runCallBack l c results written cb) ∧
      ∀ s', s.runCallBack l c results written cb = .ok s' → Inv gone s' ∧ SamePlace s s' := by
  have hpresent := h.present_of_alive (alive_of_guarded hguard)
  have hg := h.good c hpresent.made
  obtain ⟨hloop, hnone, hst⟩ := hg.guarded l hguard
  have hloop : l = s.loop_ c := hloop
  rw [Sys.runCallBack, if_neg (by simp [hloop])]
  rcases apply_spec h.table hpresent.made (f := fun k => k.runCallBack results written cb) with
    ⟨e, -, he⟩ | ⟨k, s', hk, hs', hf, hp, hv⟩
  · rw [he]
    exact ⟨safe_fault e, fun u hu => by cases hu⟩
  · rw [hs']
    refine ⟨safe_ok _, fun u hu => ?_⟩
    obtain rfl := Except.ok.inj hu
    obtain ⟨hout, hquiet, hpending⟩ := (hg.called_begun hst).runCallBack hk
    refine ⟨h.frame hpresent hf hp ?_, hp⟩
    rw [hv]
    refine hg.apply hst hout (.inr fun t ht => ?_) (.inr hquiet) (.inr (.inr fun l' => ?_))
    · obtain rfl := (hpending t ht).resolve_left List.not_mem_nil
      rfl
    · -- no event of it is left, in this loop or another
      by_contra hne
      obtain ⟨rfl, -⟩ := hg.active l' (Nat.pos_of_ne_zero hne)
      rw [hloop] at hnone
      exact hne hnone

/-- `poll` returns. -/
lemma poll_inv (h : Inv gone s) (hpc : (s.loops l).pc = .poll)
    {ready : List (ConnectionPtr × Events)} (hready : s.Ready l ready) :
    Inv gone (s.setPc l (.events ready none)) := by
  have hloop := loops_eq hpc
  obtain ⟨hnodup, -, hall⟩ := hready
  have hguard : ∀ d, (s.view d).guarded l = false := fun d => by
    simp only [Sys.view]; rw [hloop]; rfl
  have hview : ∀ d, (s.setPc l (.events ready none)).view d = { s.view d with
      active := Function.update (s.view d).active l ((ready.map Prod.fst).count d) } := fun d => by
    rw [Sys.setPc, view_setLoop_events (by rw [hloop]; rfl)]
    ext1 <;> try rfl
    exact Function.update_eq_iff.mpr ⟨(hguard d).symm, fun _ _ => rfl⟩
  have hin : ∀ d, 0 < (ready.map Prod.fst).count d →
      s.loop_ d = l ∧ s.alive d = true ∧ (s.conns d).channel_.interest ≠ none := fun d hd => by
    obtain ⟨e, he, rfl⟩ := List.mem_map.mp (List.count_pos_iff.mp hd)
    exact hall e he
  refine h.setLoop (fun f hf => by cases hf) (fun d hd => ?_) fun d hd => (hview d).trans ?_
  · refine (hview d).symm ▸ (h.good d hd).poll (hguard d) (List.nodup_iff_count_le_one.mp hnodup d)
      fun hpos => ?_
    obtain ⟨h1, -, h3⟩ := hin d hpos
    exact ⟨h1, h3⟩
  · have hzero : (ready.map Prod.fst).count d = 0 := by
      by_contra hne
      exact hd (h.present_of_alive (hin d (Nat.pos_of_ne_zero hne)).2.1)
    rw [hzero, ← (h.blank d hd).active l, Function.update_eq_self]

/-- The next event is taken: its connection is alive. -/
lemma event_inv (h : Inv gone s) {ev : Events} {active : List (ConnectionPtr × Events)}
    (hpc : (s.loops l).pc = .events ((c, ev) :: active) none) (cbs : List Channel.CallBack) :
    s.alive c = true ∧ Inv gone (s.setPc l (.events active (some (c, cbs)))) := by
  have hloop := loops_eq hpc
  have hone : (s.view c).active l = (active.map Prod.fst).count c + 1 := by
    simp only [Sys.view]
    rw [hloop]
    simp [LoopThread.active]
  have hpos : 0 < (s.view c).active l := by omega
  have hc : Present gone s c := by
    by_contra hno
    rw [(h.blank c hno).active l] at hone
    cases hone
  have hg := h.good c hc.made
  have hself : (s.setPc l (.events active (some (c, cbs)))).view c = { s.view c with
      active := Function.update (s.view c).active l ((s.view c).active l - 1)
      guarded := Function.update (s.view c).guarded l true } := by
    rw [Sys.setPc, view_setLoop_events (by rw [hloop]; rfl), hone]
    simp [LoopThread.active, LoopThread.guarded]
  have hother : ∀ d, d ≠ c → (s.setPc l (.events active (some (c, cbs)))).view d = s.view d := by
    intro d hd
    refine view_setLoop_same ?_ ?_ ?_ <;> rw [hloop]
    · rfl
    · simp [LoopThread.active, hd.symm]
    · simp [LoopThread.guarded, hd.symm]
  refine ⟨hg.alive (.inl ⟨l, hpos⟩), h.setLoop (fun f hf => by cases hf) (fun d hd => ?_)
    fun d hd => hother d (by rintro rfl; exact hd hc)⟩
  by_cases hdc : d = c
  · rw [hdc]; exact hself.symm ▸ hg.handle hpos
  · exact (hother d hdc).symm ▸ h.good d hd

/-- The guard is let go. -/
lemma unguard_inv (h : Inv gone s) {cbs : List Channel.CallBack}
    {active : List (ConnectionPtr × Events)}
    (hpc : (s.loops l).pc = .events active (some (c, cbs))) :
    Inv gone (s.setPc l (.events active none)) := by
  have hloop := loops_eq hpc
  have hview : ∀ d, (s.setPc l (.events active none)).view d =
      { s.view d with guarded := Function.update (s.view d).guarded l false } := fun d => by
    rw [Sys.setPc, view_setLoop_events (by rw [hloop]; rfl)]
    ext1 <;> try rfl
    refine Function.update_eq_iff.mpr ⟨?_, fun _ _ => rfl⟩
    simp only [Sys.view]
    rw [hloop]
    rfl
  refine h.setLoop (fun f hf => by cases hf) (fun d hd => ?_) fun d hd => (hview d).trans ?_
  · exact (hview d).symm ▸ (h.good d hd).unguard
  · rw [← (h.blank d hd).guarded l, Function.update_eq_self]

/-- **A step of a loop is safe, and keeps the invariant.** -/
theorem loopStep_spec (h : Inv gone s) (l : Fin (n + 1)) (ready : List (ConnectionPtr × Events))
    (results : List ReadResult) (written : Option ℕ) :
    Keeps gone (s.loopStep l ready results written) := by
  cases hpc : (s.loops l).pc with
  | poll =>
    simp only [Sys.loopStep, hpc]
    split_ifs with hready
    exacts [keeps_ok (poll_inv h hpc hready), keeps_impossible]
  | events active handling =>
    have hloop := loops_eq hpc
    rcases handling with _ | ⟨c, _ | ⟨cb, cbs⟩⟩
    · rcases active with _ | ⟨⟨c, ev⟩, active⟩
      · -- the queue is swapped
        simp only [Sys.loopStep, hpc]
        refine keeps_ok (h.setLoop_same rfl fun d => ?_)
        refine view_setLoop_same ?_ ?_ ?_ <;> rw [hloop]
        · simp [LoopThread.todoOf, LoopThread.todo]
        · rfl
        · rfl
      · simp only [Sys.loopStep, hpc]
        obtain ⟨halive, hinv⟩ := event_inv h hpc (Channel.callBacks ev)
        rw [if_pos halive]
        exact keeps_ok hinv
    · simp only [Sys.loopStep, hpc]
      exact keeps_ok (unguard_inv h hpc)
    · -- the next callback
      have hguard : (s.view c).guarded l = true := by
        simp only [Sys.view]
        rw [hloop]
        simp [LoopThread.guarded]
      obtain ⟨hsafe, hok⟩ := runCallBack_spec h hguard results written cb
      simp only [Sys.loopStep, hpc]
      cases hr : s.runCallBack l c results written cb with
      | error e => rw [hr] at hsafe; exact ⟨by simpa [Safe] using hsafe, fun u hu => by cases hu⟩
      | ok s1 =>
        obtain ⟨hinv, hp⟩ := hok s1 hr
        have hloop1 := loops_eq ((hp l).trans hpc)
        refine keeps_ok (hinv.setLoop_same rfl fun d => ?_)
        refine view_setLoop_same ?_ ?_ ?_ <;> rw [hloop1] <;> rfl
  | functions left ran =>
    have hloop := loops_eq hpc
    rcases left with _ | ⟨f, left⟩
    · -- the round is over
      simp only [Sys.loopStep, hpc]
      refine keeps_ok (h.setLoop_same rfl fun d => ?_)
      refine view_setLoop_same ?_ ?_ ?_ <;> rw [hloop] <;> rfl
    · have htodo : (s.loops l).todo = f :: (left ++ (s.loops l).pendingFunctions_) := by
        rw [hloop]; rfl
      obtain ⟨hsafe, hok⟩ := runFunctor_spec h htodo (by rw [hloop]; rfl) written
      simp only [Sys.loopStep, hpc]
      cases hr : s.runFunctor l f written with
      | error e => rw [hr] at hsafe; exact ⟨by simpa [Safe] using hsafe, fun u hu => by cases hu⟩
      | ok s1 =>
        obtain ⟨hf, hp, hg⟩ := hok s1 hr
        exact keeps_ok (h.pop hpc hf hp hg)

/-! ### The user, and the acceptor -/

/-- The last pointer to a connection may be let go: no function that is to be run is bound by
`this`, and if the connection is closed, `epoll` does not know its channel and no event of it is to
be handled. -/
def Sys.Releasable (s : Sys n) (c : ConnectionPtr) : Prop :=
  (∀ l, ∀ f ∈ (s.loops l).todo, f.conn = c → f.run.strong = true) ∧
  ((s.conns c).state_ = .Disconnected →
    (s.conns c).channel_.interest = none ∧ ∀ l, c ∉ (s.loops l).active)

/-- A new connection has a name that was not used, and the user does not let go of a connection
too early. -/
def Careful (s : Sys n) : Action n → Prop
  | .newConnection => s.server.nextName ∉ s.server.names
  | .release c => 2 ≤ s.kept.count c ∨ s.Releasable c
  | _ => True

section newConnection

variable {pool : EventLoopThreadPool (Fin (n + 1))} {fresh : Connection} {loop : Fin (n + 1)}

lemma view_addConnection_self (ht : Table s.server) (hnew : s.server.nextName ∉ s.server.names)
    (hc : c = s.server.names.length) (h : (s.view c).Blank) :
    (s.addConnection fresh loop pool).view c = ⟨fresh, loop, true, 0,
      fun l => if l = loop then [.connectEstablished] else [], fun _ => 0, fun _ => false⟩ := by
  obtain ⟨-, -, hany⟩ := ht.insert hnew
  rw [Sys.addConnection, ← hc, view_queueInLoop]
  ext1
  · exact Function.update_self ..
  · exact Function.update_self ..
  · simp [Sys.view, hany, hc]
  · exact h.kept
  · funext l
    have htodo : (s.loops l).todoOf c = [] := h.todo l
    simp [Sys.view, htodo]
  · exact funext h.active
  · exact funext h.guarded

lemma view_addConnection_of_ne (ht : Table s.server) (hnew : s.server.nextName ∉ s.server.names)
    (hd : d ≠ s.server.names.length) : (s.addConnection fresh loop pool).view d = s.view d := by
  obtain ⟨-, -, hany⟩ := ht.insert hnew
  rw [Sys.addConnection, view_queueInLoop_of_ne (by simpa using hd.symm)]
  simp [Sys.view, hd, hany]

end newConnection

instance (s : Sys n) (c : ConnectionPtr) : Decidable (s.Releasable c) :=
  inferInstanceAs (Decidable (_ ∧ _))

instance (s : Sys n) : ∀ a : Action n, Decidable (Careful s a)
  | .newConnection => inferInstanceAs (Decidable (_ ∉ _))
  | .release _ => inferInstanceAs (Decidable (_ ∨ _))
  | .loop .. | .keep _ | .send .. | .shutDown .. | .forceClose .. => .isTrue trivial

lemma newConnection_spec (h : Inv gone s) (received sent : Bool)
    (hnew : s.server.nextName ∉ s.server.names) :
    Keeps gone (s.newConnection (.new received sent)) := by
  unfold Sys.newConnection
  cases hloop : s.pool.getLoop with
  | error e => exact keeps_fault e
  | ok r =>
    obtain ⟨loop, pool⟩ := r
    refine keeps_ok ?_
    obtain ⟨htable, hnames, -⟩ := h.table.insert hnew
    have hlen : (s.addConnection (.new received sent) loop pool).server.names.length =
        s.server.names.length + 1 := by
      change s.server.newConnection.names.length = _
      rw [hnames, List.length_append, List.length_singleton]
    have hmore : ∀ d, Present gone s d → Present gone
        (s.addConnection (.new received sent) loop pool) d := fun d hd =>
      ⟨by rw [hlen]; exact Nat.lt_succ_of_lt hd.made, hd.kept⟩
    refine ⟨htable, fun d hd => by rw [hlen]; exact Nat.lt_succ_of_lt (h.made d hd),
      fun d hd => ?_, fun d hd => ?_, fun l f hf hs => hmore _ ?_⟩
    · by_cases hdc : d = s.server.names.length
      · rw [view_addConnection_self h.table hnew hdc (h.blank d fun hp => hp.made.ne hdc)]
        exact View.good_new received sent loop
      · rw [view_addConnection_of_ne h.table hnew hdc]
        rw [hlen] at hd
        exact h.good d (lt_of_le_of_ne (Nat.lt_succ_iff.mp hd) hdc)
    · have hd0 : ¬ Present gone s d := mt (hmore d) hd
      have hne : d ≠ s.server.names.length := by
        rintro rfl
        exact hd ⟨by rw [hlen]; exact Nat.lt_succ_self _, fun hg => (h.made _ hg).ne rfl⟩
      rw [view_addConnection_of_ne h.table hnew hne]
      exact h.blank d hd0
    · rw [Sys.addConnection, (queueInLoop_place _ loop _ : SamePlace _ _).ran] at hf
      exact h.ran l f hf hs

/-- The user keeps another number of pointers to a connection. -/
lemma Inv.hold (h : Inv gone s) {kept : List ConnectionPtr} (hc : Present gone s c)
    (hother : ∀ d, d ≠ c → kept.count d = s.kept.count d)
    (hk : 0 < kept.count c ∨ s.Releasable c) : Inv gone { s with kept := kept } := by
  have hreleasable : s.Releasable c → (s.view c).Releasable := fun hr => by
    refine ⟨fun l b hb => hr.1 l ⟨c, b⟩ (mem_todoOf.mp hb) rfl, fun hcl => ?_⟩
    obtain ⟨hint, hact⟩ := hr.2 hcl
    exact ⟨hint, fun l => List.count_eq_zero.mpr (hact l)⟩
  refine h.frame hc ⟨fun d hd => ?_, rfl, id⟩ (fun _ => rfl) ?_
  · simp [Sys.view, hother d hd]
  · exact (h.good c hc.made).hold (k := kept.count c) (hk.imp_right hreleasable)

/-- What the user may ask of a connection. -/
structure Asked (f : Connection → Result Connection) : Prop where
  outcome : ∀ k k' : Connection, k.Begun → f k = .ok k' → k.Outcome k'
  new : ∀ k : Connection, k.state_ = .Connecting → f k = .ok k

lemma call_spec (h : Inv gone s) {f : Connection → Result Connection} (hf : Asked f) :
    Keeps gone (s.call c f) := by
  unfold Sys.call
  split_ifs with hk
  · have hkept : 0 < (s.view c).kept := List.count_pos_iff.mpr hk
    have hc := h.present_of_alive (alive_of_kept hkept)
    have hg := h.good c hc.made
    rcases apply_spec h.table hc.made (f := f) with ⟨e, -, he⟩ | ⟨k, s', hk', hs', hframe, hp, hv⟩
    · rw [he]
      exact keeps_fault e
    · rw [hs']
      refine keeps_ok (h.frame hc hframe hp ?_)
      rw [hv]
      by_cases hst : (s.view c).conn.state_ = .Connecting
      · obtain rfl := Except.ok.inj ((hf.new (s.view c).called hst).symm.trans hk')
        exact hg.apply_called
      · exact hg.apply hst (hf.outcome _ k (hg.called_begun hst) hk') (.inl hkept) (.inl hkept)
          (.inl hkept)
  · exact keeps_impossible

/-- **One step of the server**: it is safe if the steps before it were careful. -/
theorem step_spec (received sent : Bool) (h : Inv gone s) (a : Action n) (ha : Careful s a) :
    Keeps gone (step received sent s a) := by
  cases a with
  | loop l ready results written => exact loopStep_spec h l ready results written
  | newConnection => exact newConnection_spec h received sent ha
  | keep c =>
    simp only [step]
    split_ifs with hc
    · refine keeps_ok (h.hold (h.present_of_alive hc) (fun d hd => ?_) (.inl (by simp)))
      rw [List.count_cons_of_ne hd.symm]
    · exact keeps_impossible
  | release c =>
    refine keeps_ok ?_
    by_cases hc : c ∈ s.kept
    · refine h.hold (h.present_of_alive (alive_of_kept (List.count_pos_iff.mpr hc)))
        (fun d hd => List.count_erase_of_ne hd) (ha.imp_left fun htwo => ?_)
      rw [List.count_erase_self]
      omega
    · rw [List.erase_of_not_mem hc]
      exact h
  | send c inLoop msg written =>
    exact call_spec h ⟨fun k k' hk => hk.send,
      fun k hk => (Connection.call_connecting hk inLoop msg written).1⟩
  | shutDown c inLoop =>
    exact call_spec h ⟨fun k k' hk => hk.shutDown,
      fun k hk => (Connection.call_connecting hk inLoop [] none).2.1⟩
  | forceClose c inLoop =>
    exact call_spec h ⟨fun k k' hk => hk.forceClose,
      fun k hk => (Connection.call_connecting hk inLoop [] none).2.2⟩

/-! ### The run -/

lemma start_inv (port : ℤ) (name : Str) : Inv (fun _ => False) (start (n := n) port name) := by
  have hview : ∀ c, (start (n := n) port name).view c =
      ⟨.new false false, 0, false, 0, fun _ => [], fun _ => 0, fun _ => false⟩ := fun c => by
    ext1 <;> rfl
  refine ⟨⟨List.nodup_nil, fun e he => absurd he List.not_mem_nil, rfl,
    fun c hc => absurd hc (Nat.not_lt_zero c)⟩, fun c hc => hc.elim,
    fun c hc => absurd hc (Nat.not_lt_zero c), fun c _ => ?_, fun l f hf => by cases hf⟩
  rw [hview]
  exact ⟨rfl, rfl, fun _ => rfl, fun _ => rfl, fun _ => rfl, rfl⟩

variable {received sent : Bool} {as bs : List (Action n)}

lemma run_spec (h : Inv gone s) (ha : Asks (step received sent) Careful s as) :
    Keeps gone (exec (step received sent) s as) := by
  induction as generalizing s with
  | nil => exact keeps_ok h
  | cons a as ih =>
    obtain ⟨hca, has⟩ := asks_cons.mp ha
    have hstep := step_spec received sent h a hca
    cases hs : step received sent s a with
    | error e =>
      rw [hs] at hstep
      rw [exec, hs]
      exact hstep
    | ok t =>
      rw [hs] at hstep
      rw [exec_cons_ok _ hs]
      exact ih (hstep.2 t rfl) (has t hs)

/-- **Nothing is touched after it was destroyed**: in every run of the loops, the acceptor and the
users, with steps of all threads in any order, no event and no queued function comes to a
connection that was destroyed, and each comes to it in the thread of its loop. -/
theorem never_freed (port : ℤ) (name : Str)
    (h : Asks (step received sent) Careful (start port name) as) :
    Safe (exec (step received sent) (start port name) as) :=
  (run_spec (start_inv port name) h).1

/-- A connection is made, and its loop establishes it. -/
def oneConnection : List (Action 1) :=
  [.newConnection, .loop 1 [] [] none, .loop 1 [] [] none, .loop 1 [] [] none, .loop 1 [] [] none]

/-- The peer closes the connection, and its loop handles that. -/
def peerCloses : List (Action 1) :=
  [.loop 1 [(0, POLLIN)] [] none, .loop 1 [] [] none, .loop 1 [] [.eof] none, .loop 1 [] [] none]

/-- The base loop takes the connection out of the table. -/
def baseRound : List (Action 1) := List.replicate 4 (.loop 0 [] [] none)

/-- The user calls `send` from another thread, and lets the connection go when that was done. -/
def sendAndWait : List (Action 1) :=
  oneConnection ++ [.keep 0, .send 0 false [1] none] ++ peerCloses ++ baseRound ++
    [.loop 1 [] [] none, .loop 1 [] [] (some 1), .release 0]

theorem never_freed_one : Safe (exec (step true true) (start 80 (str "s")) sendAndWait) :=
  never_freed 80 (str "s") (by decide +kernel)

/-- The user lets the connection go while `sendInLoop` is queued. -/
theorem freed_early : ¬ Safe (exec (step true true) (start 80 (str "s"))
    (oneConnection ++ [.keep 0, .send 0 false [1] none, .release 0] ++ peerCloses ++ baseRound ++
      [.loop 1 [] [] none, .loop 1 [] [] (some 1)])) :=
  fun h => h.1 rfl

/-! ### The table, and what is destroyed -/

/-- The states that careful runs come to. -/
def Reached (received sent : Bool) (port : ℤ) (name : Str) (s : Sys n) : Prop :=
  ∃ as, Asks (step received sent) Careful (start port name) as ∧
    exec (step received sent) (start port name) as = .ok s

variable {port : ℤ} {name : Str}

lemma Reached.inv (h : Reached received sent port name s) : Inv (fun _ => False) s := by
  obtain ⟨as, ha, hs⟩ := h
  exact (run_spec (start_inv port name) ha).2 s hs

lemma mem_table_iff (h : Table s.server) {key : Str} : (key, c) ∈ s.server.connectionMap_ ↔
    s.server.getName c = some key ∧ (s.view c).inTable = true := by
  constructor
  · exact fun he => ⟨h.named _ he, List.any_eq_true.mpr ⟨_, he, beq_self_eq_true c⟩⟩
  · rintro ⟨hname, hin⟩
    obtain ⟨⟨key', c'⟩, he, hc⟩ := List.any_eq_true.mp hin
    obtain rfl : c' = c := beq_iff_eq.mp hc
    obtain rfl := Option.some.inj ((h.named _ he).symm.trans hname)
    exact he

lemma made_of_getName {key : Str} (h : s.server.getName c = some key) :
    c < s.server.names.length := (List.getElem?_eq_some_iff.mp h).1

/-- **The table holds the open connections**: an open connection is in it under its name, and what
is in it beside these is about to be taken out by the base loop. -/
theorem table_holds_open (h : Reached received sent port name s) (key : Str) (c : ConnectionPtr) :
    (s.server.getName c = some key → (s.conns c).state_ ≠ .Disconnected →
      (key, c) ∈ s.server.connectionMap_) ∧
    ((key, c) ∈ s.server.connectionMap_ → s.server.getName c = some key ∧
      ((s.conns c).state_ = .Disconnected → ⟨c, .connectionCloseInLoop⟩ ∈ (s.loops 0).todo)) := by
  have hinv := h.inv
  constructor
  · intro hname hop
    have hg := hinv.good c (made_of_getName hname)
    exact (mem_table_iff hinv.table).mpr ⟨hname, hg.opened hop⟩
  · intro he
    obtain ⟨hname, hin⟩ := (mem_table_iff hinv.table).mp he
    have hg := hinv.good c (made_of_getName hname)
    exact ⟨hname, fun hcl => mem_todoOf.mp (hg.closing hcl hin)⟩

/-- The connection was closed by its loop, and the base loop has not heard of it. -/
theorem table_holds_open_one : ∃ s : Sys 1, Reached true true 80 (str "s") s ∧
    ∀ key c, (s.server.getName c = some key → (s.conns c).state_ ≠ .Disconnected →
        (key, c) ∈ s.server.connectionMap_) ∧
      ((key, c) ∈ s.server.connectionMap_ → s.server.getName c = some key ∧
        ((s.conns c).state_ = .Disconnected → ⟨c, .connectionCloseInLoop⟩ ∈ (s.loops 0).todo)) := by
  obtain ⟨s, hs⟩ : ∃ s : Sys 1, Reached true true 80 (str "s") s :=
    ⟨_, oneConnection ++ peerCloses, by decide +kernel, rfl⟩
  exact ⟨s, hs, fun key c => table_holds_open hs key c⟩

/-- **A connection is established once**, by its own loop: that is queued once while the connection
is `Connecting`, and not at all afterwards, in this loop or another. -/
theorem established_once (h : Reached received sent port name s)
    (hc : c < s.server.names.length) (l : Fin (n + 1)) :
    (s.loops l).todo.count ⟨c, .connectEstablished⟩ =
      if l = s.loop_ c ∧ (s.conns c).state_ = .Connecting then 1 else 0 := by
  have hg := h.inv.good c hc
  have hcount : ((s.view c).todo l).count .connectEstablished =
      (s.loops l).todo.count ⟨c, .connectEstablished⟩ := count_todoOf ..
  rw [← hcount]
  by_cases hl : l = s.loop_ c
  · subst hl
    refine hg.established.trans ?_
    by_cases hst : (s.conns c).state_ = .Connecting <;> simp [Sys.view, hst]
  · rw [if_neg (by simp [hl]), List.count_eq_zero]
    exact fun hb => hl (hg.inLoop l _ hb (by simp))

/-- The connection was made, and is not established yet. -/
theorem established_once_one : ∃ s : Sys 1, Reached true true 80 (str "s") s ∧
    0 < s.server.names.length ∧ (s.loops 1).todo.count ⟨0, .connectEstablished⟩ =
      if 1 = s.loop_ 0 ∧ (s.conns 0).state_ = .Connecting then 1 else 0 := by
  obtain ⟨s, hs, hc⟩ : ∃ s : Sys 1, Reached true true 80 (str "s") s ∧ 0 < s.server.names.length :=
    ⟨_, ⟨[.newConnection], by decide +kernel, rfl⟩, by decide +kernel⟩
  exact ⟨s, hs, hc, established_once hs hc 1⟩

/-- Nothing refers to a connection that was destroyed. -/
lemma Inv.blank_of_dead (h : Inv gone s) (hc : c < s.server.names.length)
    (hd : s.alive c = false) : (s.view c).Blank ∧ (s.conns c).state_ = .Disconnected := by
  have hg := h.good c hc
  have hno : ∀ {p : Prop}, (p → s.alive c = true) → ¬ p := fun hp hq => by
    rw [hp hq] at hd; cases hd
  have hkept : (s.view c).kept = 0 := Nat.eq_zero_of_not_pos (hno alive_of_kept)
  have hactive : ∀ l, (s.view c).active l = 0 := fun l =>
    Nat.eq_zero_of_not_pos (hno fun hl => hg.alive (.inl ⟨l, hl⟩))
  have htable : (s.view c).inTable = false := Bool.eq_false_iff.mpr (hno alive_of_inTable)
  have htodo : ∀ l, (s.view c).todo l = [] := fun l => by
    refine List.eq_nil_iff_forall_not_mem.mpr fun b hb => ?_
    cases hs : b.strong with
    | true => exact hno (fun _ : True => alive_of_todo (mem_todoOf.mp hb) hs) trivial
    | false => exact hno (fun _ : True => hg.alive (.inr ⟨l, b, hb, hs⟩)) trivial
  have hcl : (s.view c).conn.state_ = .Disconnected := by
    by_contra hop
    rw [hg.opened hop] at htable
    cases htable
  have hevent : (s.view c).conn.channel_.event_ = Channel.NoneEvent := by
    by_contra hev
    exact absurd (hg.watched hcl hev) (by omega)
  have hst : (s.view c).conn.state_ ≠ .Connecting := fun hc => by rw [hcl] at hc; cases hc
  exact ⟨⟨htable, hkept, htodo, hactive, fun l => Bool.eq_false_iff.mpr (hno alive_of_guarded),
    (hg.agrees hst).interest_none hevent⟩, hcl⟩

/-- A connection that was destroyed is given up. -/
lemma Inv.give_up (h : Inv (fun _ => False) s) (hc : c < s.server.names.length)
    (hd : s.alive c = false) : Inv (· = c) s := by
  have hran : ∀ l, ∀ f ∈ (s.loops l).ran, f.run.strong = true → f.conn ≠ c := by
    rintro l f hf hs rfl
    have : s.alive f.conn = true := by
      refine alive_of_holds (l := l) ?_
      simp only [LoopThread.holds, Bool.or_eq_true, List.any_eq_true, List.mem_append]
      exact .inr ⟨f, .inr hf, by simpa using hs⟩
    rw [hd] at this
    cases this
  refine ⟨h.table, fun d hd => hd ▸ hc, h.good, fun d hno => ?_, fun l f hf hs =>
    ⟨(h.ran l f hf hs).made, hran l f hf hs⟩⟩
  by_cases hdc : d = c
  · rw [hdc]; exact (h.blank_of_dead hc hd).1
  · exact h.blank d fun hp => hno ⟨hp.made, hdc⟩

/-- **A connection is destroyed once and for all**, and not before it is closed: then `epoll` does
not know its channel, no event of it is to be handled, no function that is bound to it is to be
run, and in no careful run from there does anything refer to it again. -/
theorem destroyed_once (h : Reached received sent port name s) (hc : c < s.server.names.length)
    (hd : s.alive c = false) :
    ((s.conns c).state_ = .Disconnected ∧ (s.conns c).channel_.interest = none ∧
      ∀ l, c ∉ (s.loops l).active ∧ ∀ f ∈ (s.loops l).todo, f.conn ≠ c) ∧
    ∀ bs t, Asks (step received sent) Careful s bs → exec (step received sent) s bs = .ok t →
      t.alive c = false := by
  obtain ⟨hblank, hcl⟩ := h.inv.blank_of_dead hc hd
  refine ⟨⟨hcl, hblank.interest, fun l => ⟨List.count_eq_zero.mp (hblank.active l), ?_⟩⟩,
    fun bs t hbs ht => ?_⟩
  · rintro ⟨c', b⟩ hf rfl
    have hmem := mem_todoOf.mpr hf
    have hnil : (s.loops l).todoOf c' = [] := hblank.todo l
    rw [hnil] at hmem
    cases hmem
  · have hinv := (run_spec (h.inv.give_up hc hd) hbs).2 t ht
    by_contra halive
    exact (hinv.present_of_alive (by simpa using halive)).kept rfl

/-- The peer closed the connection, and the base loop took it out of the table. -/
theorem destroyed_once_one : ∃ s : Sys 1, Reached true true 80 (str "s") s ∧
    s.alive 0 = false ∧
    ((s.conns 0).state_ = .Disconnected ∧ (s.conns 0).channel_.interest = none ∧
      ∀ l, 0 ∉ (s.loops l).active ∧ ∀ f ∈ (s.loops l).todo, f.conn ≠ 0) ∧
    ∀ bs t, Asks (step true true) Careful s bs → exec (step true true) s bs = .ok t →
      t.alive 0 = false := by
  obtain ⟨s, hs, hc, hd⟩ : ∃ s : Sys 1, Reached true true 80 (str "s") s ∧
      0 < s.server.names.length ∧ s.alive 0 = false :=
    ⟨_, ⟨oneConnection ++ peerCloses ++ baseRound, by decide +kernel, rfl⟩, by decide +kernel,
      by decide +kernel⟩
  exact ⟨s, hs, hd, destroyed_once hs hc hd⟩

/-- Every loop is in `poll`, with an empty queue. -/
def Quiet (s : Sys n) : Prop := ∀ l, (s.loops l).pc = .poll ∧ (s.loops l).pendingFunctions_ = []

/-- **No connection is left over**: when all loops are quiet, the connections that are alive are the
open ones and those that the user keeps. -/
theorem alive_iff_of_quiet (h : Reached received sent port name s) (hq : Quiet s)
    (hc : c < s.server.names.length) :
    s.alive c = true ↔ (s.conns c).state_ ≠ .Disconnected ∨ c ∈ s.kept := by
  have hinv := h.inv
  have hg := hinv.good c hc
  have hidle : ∀ l, s.loops l = ⟨[], .poll⟩ := fun l => by
    obtain ⟨hpc, hp⟩ := hq l
    rw [← hpc, ← hp]
  constructor
  · intro halive
    simp only [Sys.alive, Bool.or_eq_true, decide_eq_true_eq] at halive
    rcases halive with (ht | hk) | ⟨l, hl⟩
    · refine .inl fun hcl => ?_
      have hclose := hg.closing hcl ht
      change _ ∈ (s.loops 0).todoOf c at hclose
      rw [hidle 0] at hclose
      cases hclose
    · exact .inr (List.contains_iff_mem.mp hk)
    · rw [hidle l] at hl
      cases hl
  · rintro (hop | hk)
    · exact alive_of_inTable (hg.opened hop)
    · exact alive_of_kept (List.count_pos_iff.mpr hk)

/-- The first connection is closed, and the second is open. -/
theorem alive_iff_of_quiet_one : ∃ s : Sys 1, Reached true true 80 (str "s") s ∧ Quiet s ∧
    (s.alive 0 = true ↔ (s.conns 0).state_ ≠ .Disconnected ∨ 0 ∈ s.kept) ∧
    (s.alive 1 = true ↔ (s.conns 1).state_ ≠ .Disconnected ∨ 1 ∈ s.kept) := by
  obtain ⟨s, hs, hq, hlen⟩ : ∃ s : Sys 1, Reached true true 80 (str "s") s ∧ Quiet s ∧
      s.server.names.length = 2 := by
    refine ⟨_, ⟨oneConnection ++ peerCloses ++ baseRound ++
      [.newConnection, .loop 1 [] [] none, .loop 1 [] [] none, .loop 1 [] [] none],
      by decide +kernel, rfl⟩, ?_, rfl⟩
    intro l
    fin_cases l <;> exact ⟨rfl, rfl⟩
  have hfirst : 0 < s.server.names.length := by rw [hlen]; decide
  have hsecond : 1 < s.server.names.length := by rw [hlen]; decide
  exact ⟨s, hs, hq, alive_iff_of_quiet hs hq hfirst, alive_iff_of_quiet hs hq hsecond⟩

end MuduoZ.ServerRun
