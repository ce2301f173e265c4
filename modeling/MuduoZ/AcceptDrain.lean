import MuduoZ.Acceptor

/-!
Whether the accept loop drains the backlog, whatever its calls of `accept` come to.

The loop takes the outcomes of its calls one after the other. Where no descriptor is free it makes
a call of its own on the idle descriptor and goes on; on any error but this one and `EAGAIN` it
returns. The listening channel is edge triggered, so what is left then is not reported again. The
loop of `Acceptor` on a descriptor table is this one on the outcomes that the table gives.
-/

namespace MuduoZ.AcceptDrain

inductive Errno
  | EAGAIN | EMFILE | other (n : ℕ)
  deriving DecidableEq, Repr

/-- What a call of `accept` comes to. One that succeeds leaves some error of before in `errno`. -/
inductive Outcome
  | descriptor (fd : ℕ) (errno : Errno)
  | failed (errno : Errno)
  deriving DecidableEq, Repr

/-- What a descriptor is of, or the -1 of a call that failed. -/
inductive Fd
  | connection (fd : ℕ) | devNull | invalid
  deriving DecidableEq, Repr

/-- The acceptor, with the outcomes it has seen and what it did with the connections. -/
structure AcceptLoop where
  newConCallBackFunc_ : Bool
  idleFd_ : Fd
  errno : Errno
  -- whether the next calls of `open` succeed
  opens : List Bool
  seen : List Outcome
  passed : List ℕ
  closed : List Fd
  deriving DecidableEq, Repr

namespace AcceptLoop

def accept (a : AcceptLoop) : Outcome → Fd × AcceptLoop
  | .descriptor fd errno =>
    (.connection fd, { a with errno := errno, seen := a.seen ++ [.descriptor fd errno] })
  | .failed errno => (.invalid, { a with errno := errno, seen := a.seen ++ [.failed errno] })

def close (a : AcceptLoop) (fd : Fd) : AcceptLoop := { a with closed := a.closed ++ [fd] }

/-- `open("/dev/null")`. -/
def openNull (a : AcceptLoop) : AcceptLoop :=
  { a with idleFd_ := if a.opens.headD false then .devNull else .invalid, opens := a.opens.tail }

/-- A connection goes to the callback, or is closed. -/
def give (a : AcceptLoop) (conFd : ℕ) : AcceptLoop :=
  if a.newConCallBackFunc_ then { a with passed := a.passed ++ [conFd] }
  else a.close (.connection conFd)

/-- What is done when no descriptor is free. -/
def useIdle (a : AcceptLoop) (o : Outcome) : AcceptLoop :=
  let (idleFd, a) := (a.close a.idleFd_).accept o
  (a.close idleFd).openNull

/-- `handleRead` on the outcomes of the calls of `accept`: whether it has returned, or still waits
for a call when they are used up. -/
def handleRead : List Outcome → AcceptLoop → Bool × AcceptLoop
  | [], a => (false, a)
  | o :: os, a => match a.accept o with
    | (.connection (fd + 1), a) => handleRead os (a.give (fd + 1))
    | (_, a) => match a.errno with
      | .EAGAIN => (true, a)
      | .EMFILE => match os with
        | [] => (false, a.close a.idleFd_)
        | o :: os => handleRead os (a.useIdle o)
      | .other _ => (true, a)

end AcceptLoop

open AcceptLoop

/-- The connections that were taken from the backlog. -/
def taken (os : List Outcome) : List ℕ := os.filterMap fun
  | .descriptor fd _ => some fd
  | .failed _ => none

/-- If the loop has returned, the last call reported that nothing was left; and every connection
that was taken was passed on or closed. -/
def Drained (r : Bool × AcceptLoop) : Prop :=
  (r.1 = true → r.2.seen.getLast? = some (.failed .EAGAIN)) ∧
  ∀ fd, (taken r.2.seen).count fd = r.2.passed.count fd + r.2.closed.count (.connection fd)

/-- Up to the first `EAGAIN`, the calls of the loop bring descriptors above 0, or `EMFILE`; the call
after an `EMFILE` is that on the idle descriptor, and may come to anything. -/
def Clean : List Outcome → Prop
  | [] => True
  | .descriptor fd _ :: os => 0 < fd ∧ Clean os
  | .failed .EAGAIN :: _ => True
  | .failed .EMFILE :: os => match os with
    | [] => True
    | _ :: os => Clean os
  | .failed (.other _) :: _ => False

/-- The acceptor when the listening channel is readable. -/
def start (newConCallBackFunc idleOpen : Bool) (errno : Errno) (opens : List Bool) : AcceptLoop :=
  ⟨newConCallBackFunc, if idleOpen then .devNull else .invalid, errno, opens, [], [], []⟩

/-- `k` connections with descriptor 0 were neither passed on nor closed, and no others. -/
structure Lost (k : ℕ) (a : AcceptLoop) : Prop where
  idle : ∀ fd, a.idleFd_ ≠ .connection fd
  count : ∀ fd, (taken a.seen).count fd =
    a.passed.count fd + a.closed.count (.connection fd) + if fd = 0 then k else 0

variable {k : ℕ} {a : AcceptLoop} {o : Outcome} {os : List Outcome}

/-! ### One call -/

lemma taken_append (os : List Outcome) (o : Outcome) :
    taken (os ++ [o]) = taken os ++ taken [o] := List.filterMap_append

lemma count_one {α : Type} [DecidableEq α] (x y : α) :
    [y].count x = if y = x then 1 else 0 := by
  simp only [List.count_singleton, beq_iff_eq]

lemma count_descriptor (n fd : ℕ) (errno : Errno) :
    (taken [.descriptor fd errno]).count n = if fd = n then 1 else 0 := count_one n fd

lemma Lost.close (h : Lost k a) {fd : Fd} (hfd : ∀ n, fd ≠ .connection n) :
    Lost k (a.close fd) := by
  refine ⟨h.idle, fun n => ?_⟩
  have hne : [fd].count (.connection n) = 0 := by
    rw [List.count_singleton, if_neg (by simpa using hfd n)]
  have hn := h.count n
  simp only [AcceptLoop.close, List.count_append, hne]
  omega

lemma Lost.openNull (h : Lost k a) : Lost k a.openNull := by
  refine ⟨fun fd he => ?_, h.count⟩
  rw [AcceptLoop.openNull] at he
  dsimp only at he
  split at he <;> cases he

lemma Lost.failed (h : Lost k a) (errno : Errno) : Lost k (a.accept (.failed errno)).2 := by
  refine ⟨h.idle, fun fd => ?_⟩
  simp only [AcceptLoop.accept, taken_append, List.count_append]
  exact h.count fd

/-- A connection that goes to the callback or is closed is not lost. -/
lemma Lost.give (h : Lost k a) (fd : ℕ) (errno : Errno) :
    Lost k ((a.accept (.descriptor fd errno)).2.give fd) := by
  refine ⟨fun n => ?_, fun n => ?_⟩
  · rw [AcceptLoop.give]
    split <;> exact h.idle n
  · have hn := h.count n
    rw [AcceptLoop.give]
    split <;> simp only [AcceptLoop.accept, AcceptLoop.close, taken_append, List.count_append,
      count_descriptor, count_one, Fd.connection.injEq] <;> omega

/-- The loop takes descriptor 0 for a call that failed. -/
lemma Lost.zero (h : Lost k a) (errno : Errno) :
    Lost (k + 1) (a.accept (.descriptor 0 errno)).2 := by
  refine ⟨h.idle, fun n => ?_⟩
  have hn := h.count n
  simp only [AcceptLoop.accept, taken_append, List.count_append, count_descriptor, eq_comm (a := 0)]
  split_ifs at hn ⊢ <;> omega

/-- Whatever the call on the idle descriptor comes to is closed again. -/
lemma Lost.useIdle (h : Lost k a) (o : Outcome) : Lost k (a.useIdle o) := by
  have hclose := h.close h.idle
  cases o with
  | failed errno => exact ((hclose.failed errno).close fun n hn => by cases hn).openNull
  | descriptor fd errno =>
    refine Lost.openNull ⟨h.idle, fun n => ?_⟩
    have hn := hclose.count n
    simp only [AcceptLoop.close, taken_append, List.count_append, count_descriptor, count_one,
      Fd.connection.injEq] at hn ⊢
    omega

/-! ### The loop -/

/-- After a sequence of calls nothing more was lost, and a return followed `EAGAIN`, exactly if the
sequence is clean. -/
def Ends (os : List Outcome) (k : ℕ) (r : Bool × AcceptLoop) : Prop :=
  ∃ k', Lost k' r.2 ∧ k ≤ k' ∧
    (Clean os ↔ k' = k ∧ (r.1 = true → r.2.seen.getLast? = some (.failed .EAGAIN)))

/-- A sequence in which descriptor 0 was lost is not clean. -/
lemma ends_of_lost {r : Bool × AcceptLoop} {k' : ℕ} (h : Lost k' r.2) (hlt : k < k')
    (hos : ¬ Clean os) : Ends os k r :=
  ⟨k', h, hlt.le, iff_of_false hos fun he => hlt.ne' he.1⟩

lemma handleRead_ends : ∀ (os : List Outcome) {k : ℕ} {a : AcceptLoop}, Lost k a →
    Ends os k (handleRead os a)
  | [], k, a, h => ⟨k, h, le_rfl, iff_of_true trivial ⟨rfl, nofun⟩⟩
  | .descriptor (fd + 1) errno :: os, k, a, h => by
    obtain ⟨k', hlost, hle, hclean⟩ := handleRead_ends os (h.give (fd + 1) errno)
    exact ⟨k', hlost, hle, (and_iff_right fd.succ_pos).trans hclean⟩
  | .failed .EAGAIN :: _, k, a, h =>
    ⟨k, h.failed _, le_rfl, iff_of_true trivial ⟨rfl, fun _ => List.getLast?_concat⟩⟩
  | .failed (.other n) :: _, k, a, h => by
    refine ⟨k, h.failed _, le_rfl, iff_of_false id fun he => ?_⟩
    have hlast := (List.getLast?_concat).symm.trans (he.2 rfl)
    cases hlast
  | [.failed .EMFILE], k, a, h =>
    ⟨k, (h.failed _).close (h.failed _).idle, le_rfl, iff_of_true trivial ⟨rfl, nofun⟩⟩
  | .failed .EMFILE :: o :: os, _, _, h => handleRead_ends os ((h.failed _).useIdle o)
  -- what follows a descriptor 0 depends on an old error
  | .descriptor 0 .EAGAIN :: _, k, _, h =>
    ends_of_lost (h.zero _) k.lt_succ_self fun hos => absurd hos.1 (lt_irrefl 0)
  | .descriptor 0 (.other _) :: _, k, _, h =>
    ends_of_lost (h.zero _) k.lt_succ_self fun hos => absurd hos.1 (lt_irrefl 0)
  | [.descriptor 0 .EMFILE], k, _, h =>
    ends_of_lost ((h.zero _).close (h.zero _).idle) k.lt_succ_self fun hos =>
      absurd hos.1 (lt_irrefl 0)
  | .descriptor 0 .EMFILE :: o :: os, _, _, h => by
    obtain ⟨k', hlost, hle, -⟩ := handleRead_ends os ((h.zero _).useIdle o)
    exact ends_of_lost hlost hle fun hos => absurd hos.1 (lt_irrefl 0)

lemma start_lost (newConCallBackFunc idleOpen : Bool) (errno : Errno) (opens : List Bool) :
    Lost 0 (start newConCallBackFunc idleOpen errno opens) := by
  refine ⟨fun fd he => ?_, fun fd => by split <;> rfl⟩
  rw [start] at he
  dsimp only at he
  split at he <;> cases he

lemma Lost.all_iff (h : Lost k a) :
    (∀ fd, (taken a.seen).count fd = a.passed.count fd + a.closed.count (.connection fd)) ↔
      k = 0 := by
  refine ⟨fun hall => ?_, fun hk fd => ?_⟩
  · have hzero := h.count 0
    rw [hall 0, if_pos rfl] at hzero
    omega
  · rw [h.count fd, hk, ite_self, Nat.add_zero]

/-- **The loop drains the backlog exactly if its own calls bring descriptors above 0 or report that
none is free, up to the first `EAGAIN`**, with a callback or without, and whatever the calls of
`open` and the old errors are. -/
theorem drained_iff (newConCallBackFunc idleOpen : Bool) (errno : Errno) (opens : List Bool)
    (os : List Outcome) :
    Drained (handleRead os (start newConCallBackFunc idleOpen errno opens)) ↔ Clean os := by
  obtain ⟨k, hlost, -, hclean⟩ :=
    handleRead_ends os (start_lost newConCallBackFunc idleOpen errno opens)
  rw [hclean, Drained, hlost.all_iff]
  exact and_comm

/-- A connection that was aborted ends the loop. -/
theorem aborted_returns : ¬ ∀ (newConCallBackFunc idleOpen : Bool) (errno : Errno)
    (opens : List Bool) (os : List Outcome),
    Drained (handleRead os (start newConCallBackFunc idleOpen errno opens)) := by
  intro h
  have hlast := (h true true .EAGAIN [] [.failed (.other 103)]).1 rfl
  cases hlast

/-! ### On a descriptor table

The calls of a loop on a table, see `Acceptor`, are outcomes like others. -/

open Acceptor (Table)

/-- What a call of `accept` comes to on a table, if a connection gets the descriptor that is picked
for it, and leaves that error. -/
def outcome (pick : Table → ℕ × Errno) (t : Table) : Outcome :=
  match t.accept with
  | .ok _ => .descriptor (pick t).1 (pick t).2
  | .error .EAGAIN => .failed .EAGAIN
  | .error .EMFILE => .failed .EMFILE

/-- The calls of `accept` of one round. -/
def calls (pick : Table → ℕ × Errno) (a : Acceptor) : List Outcome :=
  outcome pick a.table :: match a.table.accept with
    | .error .EMFILE => [outcome pick (a.table.close a.idleFd_)]
    | .ok _ | .error .EAGAIN => []

/-- The calls of `open` of one round, and whether they succeed. -/
def opened (a : Acceptor) : List Bool :=
  match a.table.accept with
  | .error .EMFILE => [decide (a.useIdle.idleFd_ = .valid)]
  | .ok _ | .error .EAGAIN => []

/-- What `n` rounds do, one after the other. -/
def rounds {α : Type} (f : Acceptor → List α) : ℕ → Acceptor → List α
  | 0, _ => []
  | n + 1, a => f a ++ match a.round with
    | none => []
    | some b => rounds f n b

/-- The loop has the callback and the idle descriptor of the acceptor. -/
structure Follows (a : Acceptor) (l : AcceptLoop) : Prop where
  callBack : l.newConCallBackFunc_ = a.newConCallBackFunc_
  idle : l.idleFd_ = if a.idleFd_ = .valid then .devNull else .invalid

variable {pick : Table → ℕ × Errno} {t : Table} {c d : Acceptor} {l : AcceptLoop}

lemma clean_rounds (hpick : ∀ t, 0 < (pick t).1) (n : ℕ) (c : Acceptor) :
    Clean (rounds (calls pick) n c) := by
  induction n generalizing c with
  | zero => trivial
  | succ n ih =>
    rw [rounds, calls, outcome, Acceptor.round]
    rcases h : c.table.accept with (_ | _) | t
    · trivial
    · exact ih _
    · exact ⟨hpick _, ih _⟩

lemma useIdle_fields (l : AcceptLoop) (o : Outcome) :
    (l.useIdle o).newConCallBackFunc_ = l.newConCallBackFunc_ ∧
      (l.useIdle o).idleFd_ = (if l.opens.headD false then .devNull else .invalid) ∧
      (l.useIdle o).opens = l.opens.tail := by
  cases o <;> exact ⟨rfl, rfl, rfl⟩

lemma give_fields (l : AcceptLoop) (fd : ℕ) :
    (l.give fd).newConCallBackFunc_ = l.newConCallBackFunc_ ∧
      (l.give fd).idleFd_ = l.idleFd_ ∧ (l.give fd).opens = l.opens := by
  unfold AcceptLoop.give
  split <;> exact ⟨rfl, rfl, rfl⟩

/-- **A round of the loop on a table is one on the outcomes it gives.** -/
lemma handleRead_round (hpick : ∀ t, 0 < (pick t).1) (h : Follows c l)
    (hopens : opened c <+: l.opens) (os : List Outcome) :
    (c.round = none → (handleRead (calls pick c ++ os) l).1 = true) ∧
    ∀ d, c.round = some d → ∃ l', handleRead (calls pick c ++ os) l = handleRead os l' ∧
      Follows d l' ∧ l.opens = opened c ++ l'.opens := by
  obtain ⟨hcb, hidle⟩ := h
  rw [calls, outcome, Acceptor.round]
  rw [opened] at hopens ⊢
  rcases haccept : c.table.accept with (_ | _) | t
  · -- nothing is pending
    exact ⟨fun _ => rfl, fun d hd => by cases hd⟩
  · -- no descriptor is free
    refine ⟨(by cases ·), fun d hd => ?_⟩
    obtain rfl := Option.some.inj hd
    rw [haccept] at hopens
    obtain ⟨rest, hrest⟩ := hopens
    generalize outcome pick (c.table.close c.idleFd_) = o
    obtain ⟨hcb', hidle', hopens'⟩ := useIdle_fields (l.accept (.failed .EMFILE)).2 o
    have hl : (l.accept (.failed .EMFILE)).2.opens = l.opens := rfl
    rw [hl, ← hrest] at hidle' hopens'
    refine ⟨_, rfl, ⟨hcb'.trans hcb, hidle'.trans ?_⟩, hrest.symm.trans ?_⟩
    · simp
    · change _ = [decide _] ++ ((l.accept (.failed .EMFILE)).2.useIdle o).opens
      rw [hopens']
      rfl
  · refine ⟨(by cases ·), fun d hd => ?_⟩
    obtain rfl := Option.some.inj hd
    obtain ⟨fd, hfd⟩ := Nat.exists_eq_succ_of_ne_zero (hpick c.table).ne'
    obtain ⟨hcb', hidle', hopens'⟩ :=
      give_fields (l.accept (.descriptor (fd + 1) (pick c.table).2)).2 (fd + 1)
    refine ⟨_, ?_, ⟨hcb'.trans hcb, hidle'.trans hidle⟩, hopens'.symm⟩
    dsimp only
    rw [hfd]
    rfl

lemma handleRead_rounds (hpick : ∀ t, 0 < (pick t).1) (n : ℕ) (h : Follows c l)
    (hopens : rounds opened n c <+: l.opens) :
    (handleRead (rounds (calls pick) n c) l).1 = (Loop.run Acceptor.round n c).isSome := by
  induction n generalizing c l with
  | zero => rfl
  | succ n ih =>
    rw [rounds] at hopens ⊢
    rw [Loop.run]
    obtain ⟨hends, hgoes⟩ := handleRead_round hpick h ((List.prefix_append ..).trans hopens)
      (match c.round with
        | none => []
        | some d => rounds (calls pick) n d)
    cases hround : c.round with
    | none =>
      rw [hround] at hends
      exact hends rfl
    | some d =>
      rw [hround] at hopens hgoes
      obtain ⟨l', hl', hruns, hrest⟩ := hgoes d rfl
      rw [hrest, List.prefix_append_right_inj] at hopens
      exact (congrArg Prod.fst hl').trans (ih hruns hopens)

/-- The loop on the outcomes of `n` rounds on the table. -/
def onTable (pick : Table → ℕ × Errno) (errno : Errno) (n : ℕ) (c : Acceptor) :
    Bool × AcceptLoop :=
  handleRead (rounds (calls pick) n c)
    (start c.newConCallBackFunc_ (c.idleFd_ = .valid) errno (rounds opened n c))

/-- **The loop on a table is the loop on the outcomes it gives**, where no connection gets
descriptor 0: it returns when the other does, and has drained the backlog. -/
theorem returns_iff_onTable (hpick : ∀ t, 0 < (pick t).1) (errno : Errno) (c : Acceptor) :
    (c.Returns ↔ ∃ n, (onTable pick errno n c).1 = true) ∧
      ∀ n, Drained (onTable pick errno n c) := by
  refine ⟨exists_congr fun n => ?_, fun n => ?_⟩
  · have hruns : Follows c (start c.newConCallBackFunc_ (c.idleFd_ = .valid) errno
        (rounds opened n c)) := ⟨rfl, by simp [start]⟩
    rw [onTable, handleRead_rounds hpick n hruns (List.prefix_refl _), Option.isSome_iff_exists]
  · obtain ⟨k, hlost, -, hclean⟩ := handleRead_ends (rounds (calls pick) n c)
      (start_lost c.newConCallBackFunc_ (c.idleFd_ = .valid) errno (rounds opened n c))
    obtain ⟨hk, hlast⟩ := hclean.mp (clean_rounds hpick n c)
    exact ⟨hlast, hlost.all_iff.mpr hk⟩

end MuduoZ.AcceptDrain
