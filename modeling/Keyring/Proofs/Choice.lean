import Keyring.Purpose
import Keyring.Metadata.Basic
import Mathlib.Data.List.Nodup
/-!
This module contains the laws of choices. A choice is known by its name and by its position.
-/

namespace Keyring

/-- A type with finitely many values, few enough for a position in four bytes, each of which has a
name of its own. -/
class LawfulChoice (α : Type) [Choice α] : Prop where
  mem_all (a : α) : a ∈ Choice.all
  nodup_names : (Choice.names α).Nodup
  length_all_lt : (Choice.all (α := α)).length < UInt32.size

namespace LawfulChoice

variable {α : Type} [Choice α] [LawfulChoice α]

theorem name_inj {a b : α} (h : Choice.name a = Choice.name b) : a = b := by
  exact List.inj_on_of_nodup_map (nodup_names (α := α)) (mem_all a) (mem_all b) h

theorem ofName?_name (a : α) : Choice.ofName? (Choice.name a) = some a := by
  unfold Choice.ofName?
  cases hfind : (Choice.all (α := α)).find? fun b => Choice.name b == Choice.name a with
  | none =>
    have hnone := List.find?_eq_none.mp hfind a (mem_all a)
    simp at hnone
  | some b =>
    have hname := List.find?_some hfind
    rw [name_inj (beq_iff_eq.mp hname)]

variable [BEq α] [LawfulBEq α]

theorem ofIndex?_index (a : α) : Choice.ofIndex? (Choice.index a) = some a := by
  exact List.getElem?_idxOf (mem_all a)

theorem index_lt (a : α) : Choice.index a < UInt32.size := by
  exact Nat.lt_trans (List.idxOf_lt_length_of_mem (mem_all a)) length_all_lt

end LawfulChoice

instance : LawfulChoice Purpose where
  mem_all p := by cases p <;> decide
  nodup_names := by decide
  length_all_lt := by decide

instance : LawfulChoice KeyType where
  mem_all t := by cases t <;> decide
  nodup_names := by decide
  length_all_lt := by decide

instance : LawfulChoice Status where
  mem_all s := by cases s <;> decide
  nodup_names := by decide
  length_all_lt := by decide

end Keyring
