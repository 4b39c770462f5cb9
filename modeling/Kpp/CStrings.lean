import Mathlib.Data.List.Infix
import Mathlib.Data.UInt
import Mathlib.Tactic.Common

/-!
# NUL-terminated strings

A C string is read from a byte sequence up to its first NUL byte.
-/

namespace Kpp.CStrings

/-- Bytes before the first NUL; there are none if the sequence has no NUL. -/
def terminated : List UInt8 → Option (List UInt8)
  | [] => none
  | b::rest => if b=0 then some [] else (terminated rest).map (b::·)

/-- The percent sign. -/
abbrev percent : UInt8 := 37

/-- Bytes that are not NUL come before the string that follows them. -/
theorem terminated_append {v : List UInt8} (hv : (0 : UInt8)∉v) (w : List UInt8) :
    terminated (v++w)=(terminated w).map (v++·) := by
  induction v with
  | nil => simp only [List.nil_append,Option.map_id']
  | cons b v ih =>
    have hb : b≠0 := fun h => hv (h ▸ List.mem_cons_self)
    have hrest := ih (fun h => hv (List.mem_cons_of_mem b h))
    simp only [List.cons_append,terminated,if_neg hb,hrest,Option.map_map]
    rfl

/-- A string is what stands before the first NUL. -/
theorem terminated_eq_some {s w : List UInt8} :
    terminated s=some w ↔ (0 : UInt8)∉w ∧ w++[0]<+:s := by
  induction s generalizing w with
  | nil =>
    simp only [terminated,reduceCtorEq,List.prefix_nil,List.append_eq_nil_iff,List.cons_ne_nil,
      and_false]
  | cons b s ih =>
    by_cases hb : b=0
    · subst hb
      simp only [terminated,if_true,Option.some.injEq]
      constructor
      · rintro rfl
        exact ⟨List.not_mem_nil,List.prefix_append [0] s⟩
      · rintro ⟨hw,hfront⟩
        cases w with
        | nil => rfl
        | cons c w =>
          have hc := (List.cons_prefix_cons.mp hfront).1
          exact absurd (hc ▸ List.mem_cons_self) hw
    · simp only [terminated,if_neg hb,Option.map_eq_some_iff]
      constructor
      · rintro ⟨w,hw,rfl⟩
        have hrest := ih.mp hw
        refine ⟨?_,List.cons_prefix_cons.mpr ⟨rfl,hrest.2⟩⟩
        rw [List.mem_cons,not_or]
        exact ⟨Ne.symm hb,hrest.1⟩
      · rintro ⟨hw,hfront⟩
        cases w with
        | nil =>
          have hz := (List.cons_prefix_cons.mp hfront).1
          exact absurd hz.symm hb
        | cons c w =>
          obtain ⟨rfl,hrest⟩ := List.cons_prefix_cons.mp hfront
          refine ⟨w,ih.mpr ⟨fun h => hw (List.mem_cons_of_mem c h),hrest⟩,rfl⟩

end Kpp.CStrings
