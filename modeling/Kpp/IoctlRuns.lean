import Kpp.IoctlDispatch
import Mathlib.Data.Set.Operations

/-!
# What ioctls see and change of user memory

Any number of ioctls go through one handler. Owners that keep to the data they
are given make the whole run depend on the arguments of the commands that copy
in alone, and change user memory at the arguments of the commands that copy
out alone, whatever the user copies come to.
-/

namespace Kpp.IoctlRuns

open IoctlDispatch WordMemory

variable {Owner : Type*}

/-- An ioctl: its command number and its argument. -/
abbrev Ioctl := BitVec 32×ℕ

/-- The command that handles an ioctl. -/
def handler (commands : List (IoctlCommand Owner)) (x : Ioctl) : Option (IoctlCommand Owner) :=
  commands.find? (fun c => c.cmd==x.1)

/-- `handle` for one ioctl after the other: all results, and the world after. -/
def handleAll (faults : Faults) (commands : List (IoctlCommand Owner)) :
    List Ioctl → World Owner → List ℤ×World Owner
  | [],w => ([],w)
  | x::xs,w =>
    let done := handle faults commands x.1 x.2 w
    let rest := handleAll faults commands xs done.2
    (done.1::rest.1,rest.2)

/-- Addresses of the argument of a command. -/
def window (arg : ℕ) (c : IoctlCommand Owner) : Set ℕ := {a | arg≤a ∧ a<arg+c.size}

/-- The owner's handler works on its data and the owner alone. -/
def Confined (c : IoctlCommand Owner) : Prop :=
  ∃ f : Bytes c.size → Owner → ℤ×Bytes c.size×Owner,∀ data owner user,
    c.handleIoctl data owner user=((f data owner).1,(f data owner).2.1,(f data owner).2.2,user)

/-- Two worlds differ at most in user memory outside a set of addresses. -/
structure Alike (A : Set ℕ) (w w' : World Owner) : Prop where
  /-- Owners are equal. -/
  owner : w.owner=w'.owner
  /-- User memories agree on the set. -/
  user : Set.EqOn w.user w'.user A
  /-- As many user copies were made. -/
  copies : w.copies=w'.copies
  /-- The same handlers were called on the same data. -/
  calls : w.calls=w'.calls

variable {A : Set ℕ} {faults : Faults} {arg : ℕ} {c : IoctlCommand Owner}
  {commands : List (IoctlCommand Owner)} {w w' : World Owner}

/-- Writing the same bytes keeps memories alike. -/
theorem store_eqOn {user user' : UserMemory} (h : Set.EqOn user user' A) {moved size : ℕ}
    (data : Bytes size) : Set.EqOn (store arg moved data user) (store arg moved data user') A := by
  intro a ha
  unfold store
  split
  · rfl
  · exact h ha

/-- Bytes outside the argument are not written. -/
theorem store_outside {user : UserMemory} {a moved : ℕ} {data : Bytes c.size}
    (ha : a∉window arg c) : store arg moved data user a=user a := by
  refine dif_neg ?_
  intro h
  have hin : arg≤a ∧ a<arg+c.size := by omega
  exact ha hin

/-- A confined handler gives the same on worlds that are alike. -/
theorem call_alike (hc : Confined c) (h : Alike A w w') (data : Bytes c.size) :
    (w.call c data).1=(w'.call c data).1 ∧ (w.call c data).2.1=(w'.call c data).2.1 ∧
      Alike A (w.call c data).2.2 (w'.call c data).2.2 := by
  obtain ⟨f,hf⟩ := hc
  unfold World.call
  rw [hf,hf,h.owner,h.calls]
  exact ⟨rfl,rfl,rfl,h.user,h.copies,rfl⟩

/-- The argument is the same on worlds that are alike where it is read. -/
theorem argument_alike (faults : Faults) (h : Alike A w w')
    (hin : c.direction.copiesIn=true → window arg c⊆A) :
    (argument faults arg c w).1=(argument faults arg c w').1 ∧
      Alike A (argument faults arg c w).2 (argument faults arg c w').2 := by
  unfold argument
  split
  · next hcopies =>
    have hbytes : (fun i : Fin c.size => w.user (arg+i))=
        (fun i : Fin c.size => w'.user (arg+i)) := by
      funext i
      have hlt := i.isLt
      exact h.user (hin hcopies ⟨by omega,by omega⟩)
    rw [hbytes,h.copies]
    exact ⟨rfl,h.owner,h.user,rfl,h.calls⟩
  · exact ⟨rfl,h⟩

/-- A command answers the same on worlds that are alike where it reads. -/
theorem answer_alike (faults : Faults) (hc : Confined c) (h : Alike A w w')
    (hin : c.direction.copiesIn=true → window arg c⊆A) :
    (answer faults arg c w).1=(answer faults arg c w').1 ∧
      Alike A (answer faults arg c w).2 (answer faults arg c w').2 := by
  have hargument := argument_alike faults h hin
  unfold answer
  cases harg : argument faults arg c w with
  | mk found v =>
    cases harg' : argument faults arg c w' with
    | mk found' v' =>
      obtain ⟨hdata,hworld⟩ := harg' ▸ harg ▸ hargument
      dsimp only at hdata hworld
      subst hdata
      cases found with
      | none => exact ⟨rfl,hworld⟩
      | some data =>
        obtain ⟨hret,hout,hcall⟩ := call_alike hc hworld data
        dsimp only
        rw [hret,hout]
        split
        · rw [hcall.copies]
          cases faults (v'.call c data).2.2.copies with
          | none => exact ⟨rfl,hcall.owner,store_eqOn hcall.user _,rfl,hcall.calls⟩
          | some moved => exact ⟨rfl,hcall.owner,store_eqOn hcall.user _,rfl,hcall.calls⟩
        · exact ⟨rfl,hcall⟩

/-- Looking for the argument changes no user memory. -/
theorem argument_user (faults : Faults) (arg : ℕ) (c : IoctlCommand Owner) (w : World Owner) :
    (argument faults arg c w).2.user=w.user := by
  unfold argument
  split <;> rfl

/-- A confined handler changes no user memory. -/
theorem call_user (hc : Confined c) (w : World Owner) (data : Bytes c.size) :
    (w.call c data).2.2.user=w.user := by
  obtain ⟨f,hf⟩ := hc
  unfold World.call
  rw [hf]

/-- A command changes its argument at most, and only if it copies out. -/
theorem answer_outside (hc : Confined c) {a : ℕ}
    (ha : c.direction.copiesOut=true → a∉window arg c) :
    (answer faults arg c w).2.user a=w.user a := by
  have hargument := argument_user faults arg c w
  unfold answer
  cases harg : argument faults arg c w with
  | mk found v =>
    rw [harg] at hargument
    cases found with
    | none => exact congrFun hargument a
    | some data =>
      have hcall : (v.call c data).2.2.user a=w.user a :=
        (congrFun (call_user hc v data) a).trans (congrFun hargument a)
      dsimp only
      split
      · next hcopies =>
        have hout := ha hcopies.1
        split
        · exact (store_outside hout).trans hcall
        · exact (store_outside hout).trans hcall
      · exact hcall

/-- Commands with other numbers do nothing. -/
theorem foldl_other {cmd : BitVec 32} (h : ∀ c∈commands,c.cmd≠cmd) (p : Progress Owner) :
    commands.foldl (processCommand faults cmd arg) p=p := by
  induction commands with
  | nil => rfl
  | cons c commands ih =>
    have hstep : processCommand faults cmd arg p c=p := by
      unfold processCommand
      rw [if_pos (Or.inr (Ne.symm (h c List.mem_cons_self)))]
    rw [List.foldl_cons,hstep]
    exact ih (fun d hd => h d (List.mem_cons_of_mem c hd))

/-- The handler of an ioctl answers it. -/
theorem handle_found {x : Ioctl} (h : handler commands x=some c) :
    handle faults commands x.1 x.2 w=answer faults x.2 c w := by
  obtain ⟨hnumber,us,vs,rfl,hother⟩ := List.find?_eq_some_iff_append.mp h
  have hcmd : c.cmd=x.1 := by simpa using hnumber
  have hus : ∀ u∈us,u.cmd≠x.1 := fun u hu => by simpa using hother u hu
  unfold handle
  rw [List.foldl_append,foldl_other hus,List.foldl_cons,←hcmd,processCommand_answer _ _ _ rfl,
    foldl_handled _ _ _ _ rfl]

/-- An ioctl that has no handler changes nothing. -/
theorem handle_missing {x : Ioctl} (h : handler commands x=none) :
    handle faults commands x.1 x.2 w=(-enotty,w) := by
  have hother : ∀ c∈commands,c.cmd≠x.1 := fun c hc => by simpa using List.find?_eq_none.mp h c hc
  unfold handle
  rw [foldl_other hother]

/-- In a run of ioctls whose handlers keep to their data, two worlds that are
alike at the arguments that are copied in give the same results and the same
calls of the handlers, and stay alike. -/
theorem handleAll_alike (hconfined : ∀ c∈commands,Confined c) {xs : List Ioctl}
    (hin : ∀ x∈xs,∀ c,handler commands x=some c → c.direction.copiesIn=true → window x.2 c⊆A)
    (h : Alike A w w') : (handleAll faults commands xs w).1=(handleAll faults commands xs w').1 ∧
      Alike A (handleAll faults commands xs w).2 (handleAll faults commands xs w').2 := by
  induction xs generalizing w w' with
  | nil => exact ⟨rfl,h⟩
  | cons x xs ih =>
    have hrest := fun {v v'} => @ih v v' (fun y hy => hin y (List.mem_cons_of_mem x hy))
    cases hhandler : handler commands x with
    | none =>
      have hsame := hrest h
      simp only [handleAll,handle_missing hhandler,hsame.1,true_and]
      exact hsame.2
    | some c =>
      have hmem := List.mem_of_find?_eq_some hhandler
      have hfirst := answer_alike faults (hconfined c hmem) h
        (hin x List.mem_cons_self c hhandler)
      have hsame := hrest hfirst.2
      simp only [handleAll,handle_found hhandler,hfirst.1,hsame.1,true_and]
      exact hsame.2

/-- In a run of ioctls whose handlers keep to their data, user memory stays as
it is outside the arguments that are copied out. -/
theorem handleAll_outside (hconfined : ∀ c∈commands,Confined c) {xs : List Ioctl} {a : ℕ}
    (hout : ∀ x∈xs,∀ c,handler commands x=some c → c.direction.copiesOut=true → a∉window x.2 c)
    (w : World Owner) : (handleAll faults commands xs w).2.user a=w.user a := by
  induction xs generalizing w with
  | nil => rfl
  | cons x xs ih =>
    have hrest := ih (fun y hy => hout y (List.mem_cons_of_mem x hy))
    refine (hrest _).trans ?_
    cases hhandler : handler commands x with
    | none => rw [handle_missing hhandler]
    | some c =>
      have hmem := List.mem_of_find?_eq_some hhandler
      rw [handle_found hhandler]
      exact answer_outside (hconfined c hmem) (hout x List.mem_cons_self c hhandler)

/-- Runs of ioctls, with handlers that keep to their data. The results, the
calls of the handlers and the owner depend on user memory at the arguments of
the commands that copy in alone, and user memory stays as it is outside the
arguments of the commands that copy out, also when user copies fault. -/
theorem ioctls_confined (faults : Faults) (hconfined : ∀ c∈commands,Confined c) {xs : List Ioctl}
    (hin : ∀ x∈xs,∀ c,handler commands x=some c → c.direction.copiesIn=true → window x.2 c⊆A)
    (h : Alike A w w') :
    (handleAll faults commands xs w).1=(handleAll faults commands xs w').1 ∧
      Alike A (handleAll faults commands xs w).2 (handleAll faults commands xs w').2 ∧
      ∀ a,(∀ x∈xs,∀ c,handler commands x=some c → c.direction.copiesOut=true → a∉window x.2 c) →
        (handleAll faults commands xs w).2.user a=w.user a := by
  obtain ⟨hresults,halike⟩ := handleAll_alike hconfined hin h
  exact ⟨hresults,halike,fun a ha => handleAll_outside hconfined ha w⟩

/-- One command, which swaps a byte of the user with the owner. -/
def swap : IoctlCommand UInt8 :=
  ⟨7,1,fun _ => 0,.readWrite,fun data owner user => (0,fun _ => owner,data ⟨0,by decide⟩,user)⟩

/-- A world with these bytes in user memory. -/
def swapWorld (bytes : List UInt8) : World UInt8 := ⟨0,fun a => bytes.getD a 0,0,[]⟩

/-- Two swaps neither see nor change the byte behind the argument. -/
theorem ioctls_confined_swap :
    (handleAll (fun _ => none) [swap] [(7,0),(7,0)] (swapWorld [1,2])).1=
      (handleAll (fun _ => none) [swap] [(7,0),(7,0)] (swapWorld [1,3])).1 ∧
    Alike (window 0 swap) (handleAll (fun _ => none) [swap] [(7,0),(7,0)] (swapWorld [1,2])).2
      (handleAll (fun _ => none) [swap] [(7,0),(7,0)] (swapWorld [1,3])).2 ∧
    (handleAll (fun _ => none) [swap] [(7,0),(7,0)] (swapWorld [1,2])).2.user 1=2 := by
  have hswap : ∀ x∈[((7 : BitVec 32),0),(7,0)],∀ c,handler [swap] x=some c →
      window x.2 c=window 0 swap := by
    intro x hx c hc
    have harg : x.2=0 := by
      rcases List.mem_cons.mp hx with rfl | hx
      · rfl
      · rw [List.mem_singleton.mp hx]
    rw [harg,List.mem_singleton.mp (List.mem_of_find?_eq_some hc)]
  have hconfined : ∀ c∈[swap],Confined c := by
    intro c hc
    obtain rfl := List.mem_singleton.mp hc
    exact ⟨fun data owner => (0,fun _ => owner,data ⟨0,by decide⟩),fun _ _ _ => rfl⟩
  have halike : Alike (window 0 swap) (swapWorld [1,2]) (swapWorld [1,3]) := by
    refine ⟨rfl,?_,rfl,rfl⟩
    intro a ha
    have hzero : a=0 := Nat.lt_one_iff.mp ha.2
    rw [hzero]
    rfl
  have hin : ∀ x∈[((7 : BitVec 32),0),(7,0)],∀ c,handler [swap] x=some c →
      c.direction.copiesIn=true → window x.2 c⊆window 0 swap := by
    intro x hx c hc _ a ha
    exact hswap x hx c hc ▸ ha
  obtain ⟨hresults,hafter,hframe⟩ := ioctls_confined (fun _ => none) hconfined hin halike
  refine ⟨hresults,hafter,hframe 1 ?_⟩
  intro x hx c hc _ hmem
  rw [hswap x hx c hc] at hmem
  exact absurd hmem.2 (Nat.lt_irrefl 1)

end Kpp.IoctlRuns
