import MuduoZ.Lib.Loop

/-!
The loop in which the acceptor takes the pending connections, on a descriptor table that may be
full.

The idle descriptor is given up to accept one connection, which is closed at once, and opened
again. That leaves the table as full as it was, and on a full table `accept` does not report that
no connection is pending.
-/

namespace MuduoZ

namespace Acceptor

/-- The errors that `accept` has here. -/
inductive Errno
  | EAGAIN | EMFILE
  deriving DecidableEq, Repr

/-- A descriptor that is open, or the -1 of a call that failed. -/
inductive Fd
  | valid | invalid
  deriving DecidableEq, Repr

/-- The descriptors of the process, and the connections that wait to be accepted. -/
structure Table where
  limit : ℕ
  used : ℕ
  backlog : ℕ
  deriving DecidableEq, Repr

/-- `accept`, which looks for a free descriptor first. Descriptor 0 is standard input and open, so
what a successful call returns is positive. -/
def Table.accept (t : Table) : Except Errno Table :=
  if t.limit ≤ t.used then .error .EMFILE
  else if t.backlog = 0 then .error .EAGAIN
  else .ok { t with used := t.used + 1, backlog := t.backlog - 1 }

def Table.close (t : Table) : Fd → Table
  | .valid => { t with used := t.used - 1 }
  | .invalid => t

/-- `open("/dev/null")`. -/
def Table.openNull (t : Table) : Fd × Table :=
  if t.limit ≤ t.used then (.invalid, t) else (.valid, { t with used := t.used + 1 })

end Acceptor

open Acceptor in
/-- A callback keeps the descriptors it is given. -/
structure Acceptor where
  newConCallBackFunc_ : Bool
  idleFd_ : Fd
  table : Table
  deriving DecidableEq, Repr

namespace Acceptor

open Loop

/-- What is done when no descriptor is free. -/
def useIdle (a : Acceptor) : Acceptor :=
  let t := a.table.close a.idleFd_
  let (idleFd, t) := match t.accept with
    | .ok t => (Fd.valid, t)
    | .error _ => (Fd.invalid, t)
  let t := t.close idleFd
  let (idleFd, t) := t.openNull
  { a with idleFd_ := idleFd, table := t }

/-- One round of the loop of `handleRead`. -/
def round (a : Acceptor) : Option Acceptor :=
  match a.table.accept with
  | .ok t => some { a with table := if a.newConCallBackFunc_ then t else t.close .valid }
  | .error .EAGAIN => none
  | .error .EMFILE => some a.useIdle

/-- `handleRead` returns. -/
def Returns (a : Acceptor) : Prop := Ends round a

/-- The descriptors that are taken for good once all the pending connections are accepted. -/
def demand (a : Acceptor) : ℕ :=
  a.table.used + if a.newConCallBackFunc_ then a.table.backlog else 0

variable {a b : Acceptor}

/-! ### One round -/

lemma accept_full {t : Table} (h : t.limit ≤ t.used) : t.accept = .error .EMFILE := if_pos h

lemma openNull_full {t : Table} (h : t.limit ≤ t.used) : t.openNull = (.invalid, t) := if_pos h

/-- Giving up the idle descriptor does not leave a free one. -/
lemma useIdle_full (h : a.table.limit ≤ a.table.used) :
    a.useIdle.table.limit = a.table.limit ∧ a.table.limit ≤ a.useIdle.table.used := by
  obtain ⟨cb, idle, limit, used, backlog⟩ := a
  cases idle with
  | invalid => simpa [useIdle, Table.close, accept_full h, openNull_full h] using h
  | valid =>
    dsimp only at h
    by_cases hu : limit ≤ used - 1
    · simp [useIdle, Table.close, Table.accept, Table.openNull, hu]
    · by_cases hb : backlog = 0
      · simp [useIdle, Table.close, Table.accept, Table.openNull, hu, hb]; omega
      · simp [useIdle, Table.close, Table.accept, Table.openNull, hu, hb]; omega

/-- Where the demand reaches the limit, every round goes on and leaves it so. -/
lemma round_goes_on (h : a.table.limit ≤ a.demand) :
    ∃ b, a.round = some b ∧ b.table.limit ≤ b.demand := by
  by_cases hf : a.table.limit ≤ a.table.used
  · obtain ⟨hl, hu⟩ := useIdle_full hf
    refine ⟨a.useIdle, by rw [round, accept_full hf], ?_⟩
    rw [hl]
    exact hu.trans (Nat.le_add_right _ _)
  · cases hcb : a.newConCallBackFunc_ with
    | false => simp [demand, hcb] at h; omega
    | true =>
      simp only [demand, hcb, if_true] at h
      have hb : a.table.backlog ≠ 0 := by omega
      refine ⟨{ a with table := { a.table with
          used := a.table.used + 1, backlog := a.table.backlog - 1 } }, ?_, ?_⟩
      · simp [round, Table.accept, hf, hb, hcb]
      · simp only [demand, hcb, if_true]; omega

/-- Below the limit, every round that goes on takes one pending connection. -/
lemma round_takes (h : a.demand < a.table.limit) (hb : a.round = some b) :
    b.demand < b.table.limit ∧ b.table.backlog < a.table.backlog := by
  have hf : ¬ a.table.limit ≤ a.table.used := by
    have := Nat.le_add_right a.table.used (if a.newConCallBackFunc_ then a.table.backlog else 0)
    rw [demand] at h
    omega
  by_cases hz : a.table.backlog = 0
  · simp [round, Table.accept, hf, hz] at hb
  · simp only [round, Table.accept, hf, hz, if_false, Option.some.injEq] at hb
    subst hb
    cases hcb : a.newConCallBackFunc_ <;> simp [demand, hcb, Table.close] at h ⊢ <;> omega

/-! ### The loop -/

/-- **The accept loop ends exactly when a descriptor is still free once every pending connection
has been accepted.** -/
theorem returns_iff (a : Acceptor) : a.Returns ↔ a.demand < a.table.limit := by
  constructor
  · intro h
    by_contra hge
    exact not_ends_of_inv (fun _ hs => round_goes_on hs) (not_lt.mp hge) h
  · intro h
    exact ends_of_measure (fun a => a.table.backlog) (fun _ _ hs hb => round_takes hs hb) h

/-- The table is full and nothing is pending. -/
theorem full_table_spins : ¬ Returns ⟨true, .valid, 8, 8, 0⟩ :=
  not_ends_of_inv (fun _ hs => round_goes_on hs) (by decide)

end Acceptor

end MuduoZ
