import MuduoZ.Fault
import MuduoZ.Lib.Decimal
import MuduoZ.Lib.SortedMap

/-!
`TcpServer`, as far as its table of connections goes.

The key of a connection is its name, which is printed into 64 characters: the name of the server,
its port and a number.
-/

namespace MuduoZ

/-- Connections are numbered in the order in which they were accepted. -/
abbrev ConnectionPtr := ℕ

/-- The server, and the names of the connections it has made. -/
structure TcpServer where
  connectionMap_ : List (Str × ConnectionPtr)
  connectionId_ : ℕ
  port_ : Str
  name_ : Str
  names : List Str
  deriving DecidableEq, Repr

namespace TcpServer

abbrev DASH : UInt8 := 45

/-- What `%s` prints of `c_str()`. -/
def cStr (s : Str) : Str := s.takeWhile (· ≠ 0)

/-- What `%d` prints of a `size_t`: the low 32 bits, with a sign. -/
def printInt (n : ℕ) : Str := Decimal.ofInt (toInt n)

/-- What `snprintf` leaves in a buffer, without the zero at its end. -/
def snprintf (size : ℕ) (text : Str) : Str := text.take (size - 1)

def new (port : ℤ) (name : Str) : TcpServer := ⟨[], 0, Decimal.ofInt port, name, []⟩

/-- The name of the next connection. -/
def nextName (t : TcpServer) : Str :=
  snprintf 64 (cStr t.name_ ++ DASH :: (cStr t.port_ ++ DASH :: printInt t.connectionId_))

def newConnection (t : TcpServer) : TcpServer :=
  let name := t.nextName
  let conn := t.names.length
  { t with
    connectionId_ := (t.connectionId_ + 1) % 2 ^ 64
    names := t.names ++ [name]
    connectionMap_ := SortedMap.set name conn t.connectionMap_ }

/-- `getName` of a connection. -/
def getName (t : TcpServer) (connection : ConnectionPtr) : Option Str := t.names[connection]?

def connectionCloseInLoop (t : TcpServer) (connection : ConnectionPtr) : Result TcpServer :=
  match t.getName connection with
  | none => .error .null
  | some name => .ok { t with connectionMap_ := SortedMap.erase name t.connectionMap_ }

/-! ### Names -/

/-- What all names begin with, if there is room for it. -/
def head (t : TcpServer) : Str := cStr t.name_ ++ DASH :: (cStr t.port_ ++ [DASH])

/-- The characters that are left for the number. -/
def room (t : TcpServer) : ℕ := 63 - t.head.length

/-- The numbers of two connections are printed alike, as far as there is room. -/
def Alike (room i j : ℕ) : Prop := (printInt i).take room = (printInt j).take room

instance (room i j : ℕ) : Decidable (Alike room i j) := inferInstanceAs (Decidable (_ = _))

/-- The name of the connection that was accepted as number `i`. -/
def nameOf (t : TcpServer) (i : ℕ) : Str := snprintf 64 (t.head ++ printInt i)

variable {t : TcpServer} {i j r : ℕ}

/-- The counter turns over, which `%d` does not see. -/
lemma toInt_mod (n : ℕ) : toInt ((n % 2 ^ 64 : ℕ) : ℤ) = toInt n :=
  toInt_eq_iff.mpr ((Nat.mod_modEq n _).of_dvd (by norm_num))

lemma nextName_eq (h : t.connectionId_ = i % 2 ^ 64) : t.nextName = t.nameOf i := by
  rw [nextName, nameOf, printInt, h, toInt_mod, printInt, head]
  simp

lemma nameOf_eq_iff : t.nameOf i = t.nameOf j ↔ Alike t.room i j := by
  rw [nameOf, nameOf, snprintf, snprintf, List.take_append, List.take_append,
    List.append_cancel_left_eq]
  rfl

lemma length_printInt_le (n : ℕ) : (printInt n).length ≤ 11 := by
  refine Decimal.length_ofInt_le (k := 10) (by norm_num) ?_
  have h1 := Int.le_bmod (x := (n : ℤ)) (m := 2 ^ 32) (by norm_num)
  have h2 := Int.bmod_lt (x := (n : ℤ)) (m := 2 ^ 32) (by norm_num)
  unfold toInt
  norm_num at h1 h2 ⊢
  omega

/-- **Where a number has room** it comes again after 2 ^ 32 connections only. -/
theorem alike_iff (h : 11 ≤ r) : Alike r i j ↔ i ≡ j [MOD 2 ^ 32] := by
  have htake : ∀ n, (printInt n).take r = printInt n := fun n =>
    List.take_of_length_le ((length_printInt_le n).trans h)
  rw [Alike, htake, htake, ← toInt_eq_iff]
  exact ⟨Decimal.ofInt_inj, fun h => by rw [printInt, printInt, h]⟩

end TcpServer

end MuduoZ
