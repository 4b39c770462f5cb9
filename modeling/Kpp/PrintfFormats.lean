import Kpp.CStrings

/-!
# The kernel's printf formats

A format is read byte by byte. A percent sign starts a directive of flags,
width, precision, qualifier and a conversion, in this order. The conversion
`%` prints a percent sign, others take an argument. A conversion that the
kernel does not know, `n` among them, ends the output, and so does the end of
the format inside a directive.
-/

namespace Kpp.PrintfFormats

open CStrings

/-- Where in a format its next byte stands. -/
inductive Mode where
  | text
  | flags
  | width
  | point
  | precision
  | qualifier (b : UInt8)
  | conversion
  deriving DecidableEq

/-- The flags ` `, `#`, `+`, `-` and `0`. -/
def flagBytes : List UInt8 := [32,35,43,45,48]

/-- Decimal digits. -/
def digitBytes : List UInt8 := [48,49,50,51,52,53,54,55,56,57]

/-- The qualifiers `L`, `h`, `l`, `t` and `z`. -/
def qualifierBytes : List UInt8 := [76,104,108,116,122]

/-- The qualifiers that may be doubled, `h` and `l`. -/
def doubledBytes : List UInt8 := [104,108]

/-- The conversions `X`, `c`, `d`, `i`, `o`, `p`, `s`, `u` and `x`. -/
def argumentBytes : List UInt8 := [88,99,100,105,111,112,115,117,120]

/-- A qualifier, where one may stand. -/
def qualified (b : UInt8) : Option Mode :=
  if b∈qualifierBytes then some (.qualifier b) else none

/-- The part of a directive that a byte belongs to; `none` for its conversion. -/
def Mode.modifier (mode : Mode) (b : UInt8) : Option Mode :=
  match mode with
  | .flags =>
    if b∈flagBytes then some .flags
    else if b∈digitBytes then some .width
    else if b=46 then some .point
    else qualified b
  | .width =>
    if b∈digitBytes then some .width else if b=46 then some .point else qualified b
  | .point => if b∈digitBytes then some .precision else qualified b
  | .precision => if b∈digitBytes then some .precision else qualified b
  | .qualifier first => if b=first ∧ b∈doubledBytes then some .conversion else none
  | .conversion => none
  | .text => none

/-- The byte takes an argument: a conversion other than `%`, or `*` in place
of a width or a precision. -/
def Mode.Takes (mode : Mode) (b : UInt8) : Prop :=
  b∈argumentBytes ∨ (mode=.flags ∨ mode=.point) ∧ b=42

instance (mode : Mode) (b : UInt8) : Decidable (mode.Takes b) :=
  inferInstanceAs (Decidable (_∨_))

/-- Output of a format with the strings it gets for arguments; `none` when a
directive takes an argument that is not there, or takes a string otherwise
than by `s` without width, precision and qualifier. -/
def format : Mode → List UInt8 → List (List UInt8) → Option (List UInt8)
  | .text,[],_ => some []
  | .text,b::rest,args =>
    if b=percent then format .flags rest args else (format .text rest args).map (b::·)
  -- The NUL that ends the format is no conversion either.
  | _,[],_ => some []
  | mode,b::rest,args =>
    match mode.modifier b with
    | some mode => format mode rest args
    | none =>
      if b=percent then (format .text rest args).map (percent::·)
      else if mode.Takes b then
        match args with
        | [] => none
        | s::args => if mode=.flags ∧ b=115 then (format .text rest args).map (s++·) else none
      else some []

/-- A format without percent signs is its own output. -/
theorem format_text {s : List UInt8} (hs : percent∉s) (args : List (List UInt8)) :
    format .text s args=some s := by
  induction s with
  | nil => rfl
  | cons b s ih =>
    have hb : b≠percent := fun h => hs (h ▸ List.mem_cons_self)
    have hrest := ih (fun h => hs (List.mem_cons_of_mem b h))
    simp only [format,if_neg hb,hrest,Option.map_some]

/-- A directive without arguments goes on, prints a percent sign or ends the
output. -/
theorem format_directive {mode : Mode} (hmode : mode≠.text) {b : UInt8} {s r : List UInt8}
    (h : format mode (b::s) []=some r) :
    (∃ mode',format mode' s []=some r) ∨
      (∃ r',r=percent::r' ∧ format .text s []=some r') ∨ r=[] := by
  have heq : format mode (b::s) []=
      match mode.modifier b with
      | some mode => format mode s []
      | none =>
        if b=percent then (format .text s []).map (percent::·)
        else if mode.Takes b then none else some [] := by
    cases mode with
    | text => exact absurd rfl hmode
    | _ => rfl
  rw [heq] at h
  cases hm : mode.modifier b with
  | some mode' =>
    rw [hm] at h
    exact Or.inl ⟨mode',h⟩
  | none =>
    simp only [hm] at h
    split at h
    · obtain ⟨r',hr,rfl⟩ := Option.map_eq_some_iff.mp h
      exact Or.inr (Or.inl ⟨r',rfl,hr⟩)
    · split at h
      · cases h
      · exact Or.inr (Or.inr (Option.some.inj h).symm)

/-- Without arguments a format outputs at most as many bytes as it has, and
less if it has a percent sign. -/
theorem format_length {mode : Mode} {s r : List UInt8} (h : format mode s []=some r) :
    r.length≤ s.length ∧ (mode=.text → percent∈s → r.length< s.length) := by
  induction s generalizing mode r with
  | nil =>
    have hr : r=[] := by
      cases mode with
      | _ => exact (Option.some.inj h).symm
    subst hr
    exact ⟨Nat.le_refl 0,fun _ hp => absurd hp List.not_mem_nil⟩
  | cons b s ih =>
    rw [List.length_cons]
    by_cases hmode : mode=.text
    · subst hmode
      by_cases hb : b=percent
      · simp only [format,if_pos hb] at h
        have hrest := (ih h).1
        constructor <;> omega
      · simp only [format,if_neg hb,Option.map_eq_some_iff] at h
        obtain ⟨r',hr,rfl⟩ := h
        have hrest := ih hr
        rw [List.length_cons]
        refine ⟨Nat.succ_le_succ hrest.1,fun _ hp => ?_⟩
        exact Nat.succ_lt_succ (hrest.2 rfl ((List.mem_cons.mp hp).resolve_left (Ne.symm hb)))
    · refine ⟨?_,fun ht => absurd ht hmode⟩
      rcases format_directive hmode h with ⟨mode',hr⟩ | ⟨r',rfl,hr⟩ | rfl
      · exact Nat.le_succ_of_le (ih hr).1
      · exact Nat.succ_le_succ (ih hr).1
      · exact Nat.zero_le _

end Kpp.PrintfFormats
