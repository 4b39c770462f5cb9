import Mathlib.Data.List.Basic

/-!
# Logs of keyed entries

A log lists entries in the order they were added, with repeated keys
allowed. The first and the latest entry of a key are read from either end,
and they agree for all keys as long as repetitions carry the same value.
-/

namespace Kpp.AssocLog

variable {E K V : Type*} [BEq K] (key : E → K) (value : E → V)

/-- The oldest entry of the key. -/
def first (log : List E) (k : K) : Option E := log.find? (fun e => key e==k)

/-- The newest entry of the key. -/
def latest (log : List E) (k : K) : Option E := first key log.reverse k

/-- Oldest and newest entries of each key carry the same value. -/
def Agrees (log : List E) : Prop :=
  ∀ k,(first key log k).map value=(latest key log k).map value

/-- A new entry is the oldest one of its key only if there was none. -/
theorem first_append (log : List E) (e : E) (k : K) :
    first key (log++[e]) k=(first key log k).or (if (key e==k)=true then some e else none) := by
  unfold first
  rw [List.find?_append]
  cases hk : key e==k with
  | true => simp only [List.find?_cons,hk,if_true]
  | false => simp only [List.find?_cons,hk,List.find?_nil,Bool.false_eq_true,if_false]

/-- A new entry is the newest one of its key. -/
theorem latest_append (log : List E) (e : E) (k : K) :
    latest key (log++[e]) k=if (key e==k)=true then some e else latest key log k := by
  unfold latest first
  rw [List.reverse_append,List.reverse_singleton,List.singleton_append,List.find?_cons]
  cases hk : key e==k with
  | true => rfl
  | false => rfl

/-- The entries of a part of the log that contains every entry of the key
suffice to look the key up. -/
theorem first_filter (log : List E) (k : K) {p : E → Bool}
    (hp : ∀ e,(key e==k)=true → p e=true) : first key (log.filter p) k=first key log k := by
  unfold first
  rw [List.find?_filter]
  congr 1
  funext e
  cases hk : key e==k with
  | true => simp only [hp e hk,and_self,decide_true]
  | false => simp only [Bool.false_eq_true,and_false,decide_false]

/-- After one more entry the two ends still agree exactly when the entry
repeats the oldest value of its key, or the key is new. -/
theorem agrees_append_iff [EquivBEq K] {log : List E} (h : Agrees key value log) (e : E) :
    Agrees key value (log++[e]) ↔ ∀ old,first key log (key e)=some old → value old=value e := by
  constructor
  · intro hnew old hold
    have hk := hnew (key e)
    rw [first_append,latest_append,hold,if_pos BEq.rfl,if_pos BEq.rfl] at hk
    exact Option.some.inj hk
  · intro hrepeat k
    rw [first_append,latest_append]
    cases hk : key e==k with
    | false =>
      simp only [Bool.false_eq_true,if_false,Option.or_none]
      exact h k
    | true =>
      have hsame : first key log k=first key log (key e) := by
        unfold first
        congr 1
        funext x
        cases hx : key x==key e with
        | true => exact BEq.trans hx hk
        | false =>
          by_contra hne
          have hxk : (key x==k)=true := by simpa using hne
          rw [BEq.trans hxk (BEq.symm hk)] at hx
          cases hx
      cases hf : first key log k with
      | none => rfl
      | some old =>
        rw [hsame] at hf
        exact congrArg some (hrepeat old hf)

end Kpp.AssocLog
