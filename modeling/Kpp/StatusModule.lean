import Kpp.KObjectTrees
import Kpp.MoveOnlyHandle

/-!
# Load and unload of the status module

`status_module_init` makes a kset below `kernel_kobj` and adds the `KObject`
of a `StatusModule` to it. Each way out of it unregisters the kset.
`status_module_exit` deletes the `KObject` from sysfs, drops the pointer to
the `StatusModule` with `release()` and unregisters the kset; nothing puts the
reference that `init_and_add` left.
-/

namespace Kpp.StatusModule

open KObjectTrees MoveOnlyHandle ParentChains StepRun

/-- What an object was made for. -/
inductive Use where
  | kset
  | statusModule

/-- What each step of a load comes back with. -/
structure Outcomes (K : Type*) where
  /-- The kset that `kset_create_and_add` makes, if it does. -/
  kset : Option K
  /-- The block that `make_unique<StatusModule>` gets, if it does. -/
  statusModule : Option K
  /-- Result of making the directory `status`. -/
  added : ℤ

/-- The module's globals. -/
structure Globals (K : Type*) where
  /-- `kpp_kset`. -/
  kppKset : Option K
  /-- `g_status_module`. -/
  statusModule : Owner K

/-- Kernel objects, and the module between its loads. -/
structure State (K : Type*) where
  /-- Kernel objects with their storage. -/
  tree : KObjectTrees.State K
  /-- Globals of a module whose init returned 0. -/
  loaded : Option (Globals K)
  /-- What was made by all loads so far. -/
  uses : K → Option Use

/-- Loads and unloads. -/
inductive Action (K : Type*) where
  | load (o : Outcomes K)
  | unload

/-- Kernel's error without memory. -/
abbrev ENOMEM : ℤ := 12

variable {K : Type*}

section Code
variable [DecidableEq K]

/-- `kset_create_and_add` where it succeeds; where it fails it leaves nothing. -/
def ksetCreateAndAdd (kset parent : K) (tree : KObjectTrees.State K) :
    Option (KObjectTrees.State K) :=
  run KObjectTrees.step tree [.construct kset,.initAndAdd kset (some parent) 0]

/-- `kset_unregister`; the release function of a kset frees its storage. -/
def ksetUnregister (kset : K) (tree : KObjectTrees.State K) : Option (KObjectTrees.State K) :=
  (run KObjectTrees.step tree [.del kset,.put kset]).bind fun tree =>
    if tree.forest.released kset=0 then some tree
    else KObjectTrees.step tree (.destruct kset)

/-- `status_module_init` from the allocation of the StatusModule on. The
address of the `KObject` stands for that of the `StatusModule`. -/
def initStatus (kset : K) (o : Outcomes K) (tree : KObjectTrees.State K) :
    Option (ℤ×Globals K×KObjectTrees.State K) :=
  match o.statusModule with
  | none =>
    (ksetUnregister kset tree).map (fun tree => (-ENOMEM,⟨some kset,⟨none⟩⟩,tree))
  | some this =>
    (KObjectTrees.step tree (.construct this)).bind fun tree =>
      let (ret,tree) := initAndAdd this (some kset) o.added tree
      if ret≠0 then
        (ksetUnregister kset tree).map (fun tree => (ret,⟨some kset,⟨some this⟩⟩,tree))
      else some (0,⟨some kset,⟨some this⟩⟩,tree)

/-- `status_module_init` on fresh globals. -/
def statusModuleInit (kernelKobj : K) (o : Outcomes K) (tree : KObjectTrees.State K) :
    Option (ℤ×Globals K×KObjectTrees.State K) :=
  match o.kset with
  | none => some (-ENOMEM,⟨none,⟨none⟩⟩,tree)
  | some kset => (ksetCreateAndAdd kset kernelKobj tree).bind (initStatus kset o)

/-- `status_module_exit`; the pointer that `release()` returns is dropped. -/
def statusModuleExit (g : Globals K) (tree : KObjectTrees.State K) :
    Option (Globals K×KObjectTrees.State K) :=
  match g.statusModule.held,g.kppKset with
  | some this,some kset =>
    (KObjectTrees.step tree (.del this)).bind fun tree =>
      (ksetUnregister kset tree).map (fun tree => ({g with statusModule := ⟨none⟩},tree))
  | _,_ => none

/-- What a load made. -/
def record (o : Outcomes K) (uses : K → Option Use) : K → Option Use :=
  match o.kset,o.statusModule with
  | none,_ => uses
  | some kset,none => Function.update uses kset (some .kset)
  | some kset,some this =>
    Function.update (Function.update uses kset (some .kset)) this (some .statusModule)

/-- One load attempt or unload. -/
def step (kernelKobj : K) (s : State K) : Action K → Option (State K)
  | .load o =>
    match s.loaded with
    | some _ => none
    | none =>
      (statusModuleInit kernelKobj o s.tree).map fun (code,g,tree) =>
        ⟨tree,if code=0 then some g else none,record o s.uses⟩
  | .unload =>
    s.loaded.bind fun g =>
      (statusModuleExit g s.tree).map (fun (_,tree) => ⟨tree,none,s.uses⟩)

/-- `kernel_kobj` is there, and nothing else. -/
def booted (kernelKobj : K) : KObjectTrees.State K :=
  (initAndAdd kernelKobj none 0 {KObjectTrees.start with
    made := Function.update (fun _ => false) kernelKobj true
    stored := Function.update (fun _ => false) kernelKobj true}).2

/-- No load yet. -/
def start (kernelKobj : K) : State K := ⟨booted kernelKobj,none,fun _ => none⟩

end Code

/-- What is known of one object. -/
structure Entry (K : Type*) where
  /-- It was constructed. -/
  made : Bool
  /-- Its storage is there. -/
  stored : Bool
  /-- `kobject_init` was called on it. -/
  initialised : Bool
  /-- It has a directory in sysfs. -/
  inSysfs : Bool
  /-- References of it. -/
  refs : ℕ
  /-- Those that were not taken by children. -/
  handles : ℕ
  /-- How often its release function was called. -/
  released : ℕ
  /-- The parent of which it holds a reference. -/
  parent : Option K

/-- Entries of all objects. -/
def entries (tree : KObjectTrees.State K) (k : K) : Entry K :=
  ⟨tree.made k,tree.stored k,tree.initialised k,tree.inSysfs k,tree.forest.refs k,tree.handles k,
    tree.forest.released k,tree.forest.parent k⟩

/-- Nothing was made at the address. -/
def Entry.blank : Entry K := ⟨false,false,false,false,0,0,0,none⟩

/-- An object in sysfs below a parent, with references of children. -/
def Entry.listed (p : K) (children : ℕ) : Entry K :=
  ⟨true,true,true,true,1+children,1,0,some p⟩

/-- Storage with an object that is in no directory and will not be released. -/
def Entry.stranded : Entry K := ⟨true,true,true,false,1,1,0,none⟩

/-- An object that was released, and its storage freed. -/
def Entry.gone : Entry K := ⟨true,false,true,false,0,0,1,none⟩

/-- `kernel_kobj` with references of children. -/
def Entry.root (children : ℕ) : Entry K := ⟨true,true,true,true,1+children,1,0,none⟩

/-- What becomes of an object that is not of a loaded module. -/
def Use.left : Use → Entry K
  | .kset => .gone
  | .statusModule => .stranded

/-- The object is of the loaded module. -/
def State.Current (s : State K) (k : K) : Prop :=
  ∃ g,s.loaded=some g ∧ (g.kppKset=some k ∨ g.statusModule.held=some k)

section Calls
variable [DecidableEq K] {tree t u : KObjectTrees.State K} {k p : K}

/-- What two objects have come to, while all others are as they were. -/
structure Changed (tree t : KObjectTrees.State K) (k : K) (e : Entry K) (p : K) (e' : Entry K) :
    Prop where
  /-- The entry of the first. -/
  here : entries t k=e
  /-- That of the second. -/
  above : entries t p=e'
  /-- The others. -/
  others : ∀ j,j≠k → j≠p → entries t j=entries tree j

/-- Construction in new storage. -/
theorem construct_entries (h : KObjectTrees.step tree (.construct k)=some t) :
    tree.made k=false ∧ entries t k={entries tree k with made := true,stored := true} ∧
      ∀ j,j≠k → entries t j=entries tree j := by
  obtain ⟨hnew,ht⟩ := Option.ite_none_left_eq_some.mp h
  obtain rfl := Option.some.inj ht
  refine ⟨Bool.eq_false_iff.mpr hnew,?_,?_⟩
  · simp only [entries,Function.update_self]
  · intro j hj
    simp only [entries,Function.update_of_ne hj]

/-- Adding an object that the kernel accepts below one in sysfs. -/
theorem added_entries (hk : entries tree k={(.blank : Entry K) with made := true,stored := true})
    (hp : tree.inSysfs p=true) (hne : k≠p) :
    (initAndAdd k (some p) 0 tree).1=0 ∧
      Changed tree (initAndAdd k (some p) 0 tree).2 k (.listed p 0) p
        {entries tree p with refs := tree.forest.refs p+1} := by
  have hfirst : tree.initialised k=false := congrArg Entry.initialised hk
  have hmade : tree.made k=true := congrArg Entry.made hk
  have hstored : tree.stored k=true := congrArg Entry.stored hk
  have hreleased : tree.forest.released k=0 := congrArg Entry.released hk
  have haccepted : State.childError (kobjectInit k tree) p 0=0 := by
    rw [kobjectInit_eq hfirst]
    exact if_pos hp
  unfold KObjectTrees.initAndAdd kobjectAdd
  dsimp only
  rw [if_pos haccepted,kobjectInit_eq hfirst]
  refine ⟨rfl,?_,?_,?_⟩
  · simp [entries,Forest.attach,Forest.take,hne,hmade,hstored,hreleased,Entry.listed]
  · simp [entries,Forest.attach,Forest.take,hne.symm]
  · intro j hj hjp
    simp [entries,Forest.attach,Forest.take,hj,hjp]

/-- Adding an object that the kernel refuses. -/
theorem refused_entries (hk : entries tree k={(.blank : Entry K) with made := true,stored := true})
    {made : ℤ} (hmade : made≠0) :
    (initAndAdd k (some p) made tree).1=made ∧
      entries (initAndAdd k (some p) made tree).2 k=.stranded ∧
      ∀ j,j≠k → entries (initAndAdd k (some p) made tree).2 j=entries tree j := by
  have hfirst : tree.initialised k=false := congrArg Entry.initialised hk
  have hthere : tree.made k=true := congrArg Entry.made hk
  have hstored : tree.stored k=true := congrArg Entry.stored hk
  have hlisted : tree.inSysfs k=false := congrArg Entry.inSysfs hk
  have hreleased : tree.forest.released k=0 := congrArg Entry.released hk
  have hparent : tree.forest.parent k=none := congrArg Entry.parent hk
  have herror : State.childError (kobjectInit k tree) p made=made := if_pos hmade
  unfold KObjectTrees.initAndAdd kobjectAdd
  dsimp only
  rw [herror,if_neg hmade,kobjectInit_eq hfirst]
  refine ⟨rfl,?_,?_⟩
  · simp [entries,hthere,hstored,hlisted,hreleased,hparent,Entry.stranded]
  · intro j hj
    simp [entries,hj]

/-- Deleting an object, whose parent has other references. -/
theorem del_entries (hk : entries tree k=.listed p 0) (hmore : 2≤tree.forest.refs p)
    (hrank : tree.rank p<tree.rank k) :
    Changed tree (kobjectDel k tree) k .stranded p
      {entries tree p with refs := tree.forest.refs p-1} := by
  have hmade : tree.made k=true := congrArg Entry.made hk
  have hstored : tree.stored k=true := congrArg Entry.stored hk
  have hinit : tree.initialised k=true := congrArg Entry.initialised hk
  have hrefs : tree.forest.refs k=1 := congrArg Entry.refs hk
  have hhandles : tree.handles k=1 := congrArg Entry.handles hk
  have hreleased : tree.forest.released k=0 := congrArg Entry.released hk
  have hparent : tree.forest.parent k=some p := congrArg Entry.parent hk
  have hne : k≠p := fun h => Nat.lt_irrefl _ (h ▸ hrank)
  obtain ⟨n,hn⟩ := Nat.exists_eq_add_one.mpr (Nat.zero_lt_of_lt hrank)
  unfold kobjectDel Forest.detach
  rw [if_neg (by omega),hparent,hn]
  dsimp only
  unfold Forest.drop
  dsimp only
  rw [if_neg (by omega),if_neg (by omega)]
  refine ⟨?_,?_,?_⟩
  · simp [entries,State.after,hne,hmade,hstored,hinit,hrefs,hhandles,hreleased,Entry.stranded]
  · simp [entries,State.after,hne.symm]
  · intro j hj hjp
    simp [entries,State.after,hj,hjp]

/-- Putting the last reference of an object that is in no directory. -/
theorem put_entries (hk : entries tree k=.stranded)
    (h : KObjectTrees.step tree (.put k)=some t) :
    entries t k={(.gone : Entry K) with stored := true} ∧
      ∀ j,j≠k → entries t j=entries tree j := by
  obtain ⟨hstored,ht⟩ := Option.ite_none_right_eq_some.mp h
  obtain rfl := Option.some.inj ht
  have hmade : tree.made k=true := congrArg Entry.made hk
  have hinit : tree.initialised k=true := congrArg Entry.initialised hk
  have hrefs : tree.forest.refs k=1 := congrArg Entry.refs hk
  have hhandles : tree.handles k=1 := congrArg Entry.handles hk
  have hreleased : tree.forest.released k=0 := congrArg Entry.released hk
  have hparent : tree.forest.parent k=none := congrArg Entry.parent hk
  have hdrop : tree.forest.drop (tree.rank k+1) k=tree.forest.release k := by
    unfold Forest.drop
    rw [if_neg (by omega),if_pos hrefs,hparent]
  unfold kobjectPut
  rw [hdrop]
  refine ⟨?_,?_⟩
  · simp [entries,State.after,Forest.release,hmade,hstored,hinit,hhandles,hreleased,Entry.gone]
  · intro j hj
    simp [entries,State.after,Forest.release,hj]

/-- Freeing storage. -/
theorem destruct_entries (h : KObjectTrees.step tree (.destruct k)=some t) :
    entries t k={entries tree k with stored := false} ∧
      ∀ j,j≠k → entries t j=entries tree j := by
  obtain ⟨_,ht⟩ := Option.ite_none_right_eq_some.mp h
  obtain rfl := Option.some.inj ht
  refine ⟨?_,?_⟩
  · simp only [entries,Function.update_self]
  · intro j hj
    simp only [entries,Function.update_of_ne hj]

variable [Fintype K] {kernelKobj kset : K}

/-- Where nothing was constructed there is nothing. -/
theorem blank_entries (hs : Sound tree) (hk : tree.made k=false) : entries tree k=.blank := by
  have hnot : ¬(tree.stored k=true ∨ tree.initialised k=true) := by
    intro h
    rw [hs.constructed k h] at hk
    cases hk
  obtain ⟨hstored,hinit⟩ := not_or.mp hnot
  rw [Bool.not_eq_true] at hstored hinit
  have hrefs := hs.blank k hinit
  have hlisted : tree.inSysfs k=false := by
    rw [Bool.eq_false_iff]
    intro h
    have hpos := hs.listed k h
    omega
  have hcount := hs.accounts.counted k
  have hhandles : tree.handles k=0 := by omega
  have hnever : ¬(tree.initialised k=true ∧ tree.forest.refs k=0) := by
    rw [hinit]
    exact fun h => Bool.false_ne_true h.1
  have hreleased := hs.released k
  rw [if_neg hnever] at hreleased
  simp only [entries,hk,hstored,hinit,hlisted,hrefs,hhandles,hreleased,hs.no_parent hrefs,
    Entry.blank]

/-- What `kset_create_and_add` leaves. -/
theorem ksetCreateAndAdd_spec (hs : Sound tree) {n : ℕ} (hroot : entries tree kernelKobj=.root n)
    (h : ksetCreateAndAdd kset kernelKobj tree=some t) :
    tree.made kset=false ∧ Sound t ∧
      Changed tree t kset (.listed kernelKobj 0) kernelKobj (.root (n+1)) := by
  obtain ⟨u,hu,hrest⟩ := run_cons_some h
  obtain ⟨v,hv,hlast⟩ := run_cons_some hrest
  obtain rfl := Option.some.inj hlast
  obtain ⟨hnew,hhere,hothers⟩ := construct_entries hu
  have hne : kset≠kernelKobj := by
    intro hsame
    have hmade : tree.made kernelKobj=true := congrArg Entry.made hroot
    rw [←hsame,hnew] at hmade
    cases hmade
  rw [blank_entries hs hnew] at hhere
  have habove : entries u kernelKobj=.root n := (hothers _ hne.symm).trans hroot
  have hsound := step_sound (a := .construct kset) hs trivial hu
  have hrefs : u.forest.refs kernelKobj=1+n := congrArg Entry.refs habove
  have hproper : Proper u (.initAndAdd kset (some kernelKobj) 0) := by
    refine ⟨congrArg Entry.initialised hhere,?_⟩
    rintro _ ⟨⟩ _
    omega
  have hresult := step_sound hsound hproper hv
  obtain ⟨_,hv⟩ := Option.ite_none_right_eq_some.mp hv
  obtain rfl := Option.some.inj hv
  obtain ⟨_,hadded⟩ := added_entries hhere (congrArg Entry.inSysfs habove) hne
  rw [habove,hrefs] at hadded
  refine ⟨hnew,hresult,hadded.here,hadded.above,?_⟩
  intro j hj hjp
  rw [hadded.others j hj hjp,hothers j hj]

/-- What `kset_unregister` leaves of a kset without children. -/
theorem ksetUnregister_spec (hs : Sound tree) {n : ℕ}
    (hroot : entries tree kernelKobj=.root (n+1))
    (hkset : entries tree kset=.listed kernelKobj 0) :
    ∃ t,ksetUnregister kset tree=some t ∧ Sound t ∧
      Changed tree t kset .gone kernelKobj (.root n) := by
  have hstored : tree.stored kset=true := congrArg Entry.stored hkset
  have hparent : tree.forest.parent kset=some kernelKobj := congrArg Entry.parent hkset
  have hrefs : tree.forest.refs kset=1 := congrArg Entry.refs hkset
  have hmore : tree.forest.refs kernelKobj=1+(n+1) := congrArg Entry.refs hroot
  have hne : kernelKobj≠kset := by
    rintro rfl
    rw [hroot] at hkset
    cases congrArg Entry.parent hkset
  have hdel : KObjectTrees.step tree (.del kset)=some (kobjectDel kset tree) := if_pos hstored
  have hproper : Proper tree (.del kset) := Nat.lt_of_lt_of_eq Nat.one_pos hrefs.symm
  have hsound := step_sound hs hproper hdel
  obtain ⟨hhere,habove,hothers⟩ := del_entries hkset (by omega) (hs.ranked kset _ hparent)
  obtain ⟨u,hu⟩ : ∃ u,KObjectTrees.step (kobjectDel kset tree) (.put kset)=some u :=
    ⟨_,if_pos (congrArg Entry.stored hhere)⟩
  have hhandle : (kobjectDel kset tree).handles kset=1 := congrArg Entry.handles hhere
  have hproper' : Proper (kobjectDel kset tree) (.put kset) :=
    Nat.lt_of_lt_of_eq Nat.one_pos hhandle.symm
  have hsound' := step_sound hsound hproper' hu
  obtain ⟨hput,hother'⟩ := put_entries hhere hu
  obtain ⟨t,ht⟩ : ∃ t,KObjectTrees.step u (.destruct kset)=some t :=
    ⟨_,if_pos (congrArg Entry.stored hput)⟩
  have hproper'' : Proper u (.destruct kset) := congrArg Entry.refs hput
  have hsound'' := step_sound hsound' hproper'' ht
  obtain ⟨hfreed,hother''⟩ := destruct_entries ht
  have hreleased : u.forest.released kset=1 := congrArg Entry.released hput
  refine ⟨t,?_,hsound'',?_,?_,?_⟩
  · simp only [ksetUnregister,run,hdel,Option.bind_some,hu,hreleased,if_neg Nat.one_ne_zero,ht]
  · rw [hfreed,hput]
    rfl
  · rw [hother'' _ hne,hother' _ hne,habove,hroot,hmore]
    rfl
  · intro j hj hjp
    rw [hother'' j hj,hother' j hj,hothers j hj hjp]

/-- What a load with this kset leaves. -/
structure Left (kernelKobj kset : K) (o : Outcomes K) (tree t : KObjectTrees.State K) (code : ℤ)
    (g : Globals K) : Prop where
  /-- The kernel's rules were kept. -/
  sound : Sound t
  /-- `kernel_kobj` has the kset as child after a successful load. -/
  rootEntry : entries t kernelKobj=.root (if code=0 then 1 else 0)
  /-- The kset is there then, and gone after any other load. -/
  ksetEntry : entries t kset=if code=0 then .listed kernelKobj 1 else .gone
  /-- The StatusModule was new, and is below the kset or stranded. -/
  statusEntry : ∀ this,o.statusModule=some this → tree.made this=false ∧
    entries t this=if code=0 then .listed kset 0 else .stranded
  /-- The globals of a successful load. -/
  globals : code=0 → ∃ this,o.statusModule=some this ∧ g=⟨some kset,⟨some this⟩⟩
  /-- Other objects are as before. -/
  others : ∀ j,j≠kernelKobj → j≠kset → o.statusModule≠some j → entries t j=entries tree j

/-- A load that unregisters its kset. -/
theorem left_failed {o : Outcomes K} {code : ℤ} {g : Globals K} (hs : Sound u)
    (hroot : entries u kernelKobj=.root 1) (hkset : entries u kset=.listed kernelKobj 0)
    (hthis : ∀ this,o.statusModule=some this → tree.made this=false ∧ entries u this=.stranded)
    (hothers : ∀ j,o.statusModule≠some j → entries u j=entries tree j) (hcode : code≠0)
    (h : ksetUnregister kset u=some t) : Left kernelKobj kset o tree t code g := by
  obtain ⟨v,hv,hsound,hchanged⟩ := ksetUnregister_spec hs hroot hkset
  obtain rfl := Option.some.inj (hv.symm.trans h)
  refine ⟨hsound,?_,?_,?_,fun h => absurd h hcode,?_⟩
  · rw [if_neg hcode]
    exact hchanged.above
  · rw [if_neg hcode]
    exact hchanged.here
  · intro this hsome
    obtain ⟨hnew,hstranded⟩ := hthis this hsome
    refine ⟨hnew,?_⟩
    rw [if_neg hcode,hchanged.others this,hstranded]
    · rintro rfl
      rw [hkset] at hstranded
      cases congrArg Entry.parent hstranded
    · rintro rfl
      rw [hroot] at hstranded
      cases congrArg Entry.inSysfs hstranded
  · intro j hjr hjk hj
    rw [hchanged.others j hjk hjr,hothers j hj]

/-- The end of `status_module_init`. -/
theorem initStatus_spec (hs : Sound tree) (hroot : entries tree kernelKobj=.root 1)
    (hkset : entries tree kset=.listed kernelKobj 0) {o : Outcomes K} {code : ℤ} {g : Globals K}
    (h : initStatus kset o tree=some (code,g,t)) : Left kernelKobj kset o tree t code g := by
  cases hthis : o.statusModule with
  | none =>
    simp only [initStatus,hthis] at h
    obtain ⟨v,hv,h⟩ := Option.map_eq_some_iff.mp h
    cases h
    refine left_failed hs hroot hkset ?_ (fun _ _ => rfl) (by decide) hv
    intro this hsome
    rw [hthis] at hsome
    cases hsome
  | some this =>
    simp only [initStatus,hthis] at h
    obtain ⟨u,hu,h⟩ := Option.bind_eq_some_iff.mp h
    obtain ⟨hnew,hhere,hothers⟩ := construct_entries hu
    rw [blank_entries hs hnew] at hhere
    have hne : ∀ {p : K},tree.made p=true → p≠this := by
      rintro p hp rfl
      rw [hp] at hnew
      cases hnew
    have hroot' := (hothers _ (hne (congrArg Entry.made hroot))).trans hroot
    have hnek := hne (congrArg Entry.made hkset)
    have hkset' := (hothers _ hnek).trans hkset
    have hrefs : u.forest.refs kset=1 := congrArg Entry.refs hkset'
    have hsound := step_sound (a := .construct this) hs trivial hu
    have hproper : Proper u (.initAndAdd this (some kset) o.added) := by
      refine ⟨congrArg Entry.initialised hhere,?_⟩
      rintro _ ⟨⟩ _
      omega
    have hstep : KObjectTrees.step u (.initAndAdd this (some kset) o.added)=
        some (initAndAdd this (some kset) o.added u).2 := if_pos (congrArg Entry.stored hhere)
    have hsound' := step_sound hsound hproper hstep
    have hnot : ∀ {j : K},o.statusModule≠some j → j≠this := fun hj h => hj (h ▸ hthis)
    by_cases hadded : o.added=0
    · rw [hadded] at h hsound'
      obtain ⟨hcode,hchanged⟩ := added_entries hhere (congrArg Entry.inSysfs hkset') hnek.symm
      simp only [hcode,ne_eq,not_true_eq_false,if_false,Option.some.injEq,Prod.mk.injEq] at h
      obtain ⟨rfl,rfl,rfl⟩ := h
      rw [hkset',hrefs] at hchanged
      refine ⟨hsound',?_,hchanged.above,?_,fun _ => ⟨this,hthis,rfl⟩,?_⟩
      · rw [hchanged.others _ (hne (congrArg Entry.made hroot)) (fun h => ?_),hroot',if_pos rfl]
        rw [←h,hroot'] at hkset'
        cases congrArg Entry.parent hkset'
      · intro j hj
        obtain rfl := Option.some.inj (hthis.symm.trans hj)
        exact ⟨hnew,hchanged.here⟩
      · intro j _ hjk hj
        rw [hchanged.others j (hnot hj) hjk,hothers j (hnot hj)]
    · obtain ⟨hcode,hrefused,hothers'⟩ := refused_entries (p := kset) hhere hadded
      simp only [hcode,ne_eq,hadded,not_false_eq_true,if_true] at h
      obtain ⟨v,hv,h⟩ := Option.map_eq_some_iff.mp h
      cases h
      refine left_failed hsound' ((hothers' _ ?_).trans hroot') ((hothers' _ hnek).trans hkset') ?_
        ?_ hadded hv
      · exact hne (congrArg Entry.made hroot)
      · intro j hj
        obtain rfl := Option.some.inj (hthis.symm.trans hj)
        exact ⟨hnew,hrefused⟩
      · intro j hj
        rw [hothers' j (hnot hj),hothers j (hnot hj)]

/-- `status_module_exit` of a loaded module. -/
theorem statusModuleExit_spec (hs : Sound tree) (hroot : entries tree kernelKobj=.root 1)
    (hkset : entries tree kset=.listed kernelKobj 1) {this : K}
    (hthis : entries tree this=.listed kset 0) :
    ∃ t,statusModuleExit ⟨some kset,⟨some this⟩⟩ tree=some (⟨some kset,⟨none⟩⟩,t) ∧ Sound t ∧
      entries t kernelKobj=.root 0 ∧ entries t kset=.gone ∧ entries t this=.stranded ∧
      ∀ j,j≠kernelKobj → j≠kset → j≠this → entries t j=entries tree j := by
  have hparent : tree.forest.parent this=some kset := congrArg Entry.parent hthis
  have hrefs : tree.forest.refs this=1 := congrArg Entry.refs hthis
  have hmore : tree.forest.refs kset=2 := congrArg Entry.refs hkset
  have hrank := hs.ranked this kset hparent
  have hnek : kset≠this := fun h => Nat.lt_irrefl _ (h ▸ hrank)
  have hner : ∀ {k p : K} {n : ℕ},entries tree k=.listed p n → kernelKobj≠k := by
    rintro k p n hk rfl
    rw [hroot] at hk
    cases congrArg Entry.parent hk
  have hne := hner hthis
  have hdel : KObjectTrees.step tree (.del this)=some (kobjectDel this tree) :=
    if_pos (congrArg Entry.stored hthis)
  have hproper : Proper tree (.del this) := Nat.lt_of_lt_of_eq Nat.one_pos hrefs.symm
  have hsound := step_sound hs hproper hdel
  have hchanged := del_entries hthis (by omega) hrank
  rw [hkset,hmore] at hchanged
  obtain ⟨t,ht,htsound,hgone⟩ := ksetUnregister_spec hsound
    ((hchanged.others _ hne (hner hkset)).trans hroot) hchanged.above
  refine ⟨t,?_,htsound,hgone.above,hgone.here,?_,?_⟩
  · simp only [statusModuleExit,hdel,Option.bind_some,ht,Option.map_some]
  · rw [hgone.others _ hnek.symm hne.symm]
    exact hchanged.here
  · intro j hjr hjk hjt
    rw [hgone.others j hjk hjr,hchanged.others j hjt hjk]

end Calls

variable [Fintype K] [DecidableEq K]

/-- All that the module ever made, and what became of it. -/
structure Accounted (kernelKobj : K) (s : State K) : Prop where
  /-- No call broke a rule of the kernel. -/
  kept : Kept s.tree
  /-- `kernel_kobj` has one child while the module is loaded. -/
  root : entries s.tree kernelKobj=.root (if s.loaded.isSome then 1 else 0)
  /-- The globals are those of the last load. -/
  globals : ∀ g,s.loaded=some g → ∃ kset this,g=⟨some kset,⟨some this⟩⟩ ∧
    s.uses kset=some .kset ∧ s.uses this=some .statusModule ∧
    entries s.tree kset=.listed kernelKobj 1 ∧ entries s.tree this=.listed kset 0
  /-- All other ksets were released once and freed, and all other StatusModules
  are in memory, with a reference that nobody puts. -/
  left : ∀ k use,s.uses k=some use → ¬s.Current k → entries s.tree k=use.left
  /-- There is nothing else. -/
  others : ∀ k,s.uses k=none → k≠kernelKobj → entries s.tree k=.blank

variable {kernelKobj : K} {s s' : State K}

/-- What a load or an unload needs to know. -/
structure Ledger (kernelKobj : K) (s : State K) : Prop extends Accounted kernelKobj s where
  /-- The kernel's rules were kept. -/
  sound : KObjectTrees.Sound s.tree
  /-- The module did not make `kernel_kobj`. -/
  older : s.uses kernelKobj=none

omit [Fintype K] in
/-- What a load with a kset notes. -/
theorem record_spec {o : Outcomes K} {kset : K} (hkset : o.kset=some kset)
    (uses : K → Option Use) :
    (∀ this,o.statusModule=some this → record o uses this=some .statusModule) ∧
      (o.statusModule≠some kset → record o uses kset=some .kset) ∧
      ∀ k,k≠kset → o.statusModule≠some k → record o uses k=uses k := by
  cases hthis : o.statusModule with
  | none =>
    simp only [record,hkset,hthis]
    refine ⟨?_,fun _ => Function.update_self _ _ _,fun k hk _ => Function.update_of_ne hk _ _⟩
    intro this hsome
    cases hsome
  | some this =>
    simp only [record,hkset,hthis]
    refine ⟨?_,?_,?_⟩
    · rintro _ ⟨⟩
      exact Function.update_self _ _ _
    · intro hne
      rw [Function.update_of_ne (fun h => hne (congrArg some h.symm)),Function.update_self]
    · intro k hk hne
      rw [Function.update_of_ne (fun h => hne (congrArg some h.symm)),Function.update_of_ne hk]

/-- A load without a kset changes nothing, and another one leaves what its
code says. -/
theorem load_cases (hl : Ledger kernelKobj s) {o : Outcomes K}
    (h : step kernelKobj s (.load o)=some s') :
    s.loaded=none ∧ (s'=s ∨ ∃ kset code g,o.kset=some kset ∧
      s'.loaded=(if code=0 then some g else none) ∧ s'.uses=record o s.uses ∧
      s.tree.made kset=false ∧ o.statusModule≠some kset ∧
      Left kernelKobj kset o s.tree s'.tree code g) := by
  simp only [step] at h
  split at h
  · cases h
  next hloaded =>
  refine ⟨hloaded,?_⟩
  obtain ⟨⟨code,g,t⟩,hinit,rfl⟩ := Option.map_eq_some_iff.mp h
  cases hkset : o.kset with
  | none =>
    simp only [statusModuleInit,hkset,Option.some.injEq,Prod.mk.injEq] at hinit
    obtain ⟨rfl,rfl,rfl⟩ := hinit
    refine Or.inl ?_
    simp only [record,hkset,if_neg (show (-ENOMEM : ℤ)≠0 by decide),←hloaded]
  | some kset =>
    simp only [statusModuleInit,hkset] at hinit
    obtain ⟨u,hu,hinit⟩ := Option.bind_eq_some_iff.mp hinit
    have hroot := hl.root
    rw [hloaded] at hroot
    obtain ⟨hnew,hsound,hchanged⟩ := ksetCreateAndAdd_spec hl.sound hroot hu
    have hleft := initStatus_spec hsound hchanged.above hchanged.here hinit
    have hother : o.statusModule≠some kset := by
      intro hsame
      have hmade : u.made kset=true := congrArg Entry.made hchanged.here
      rw [(hleft.statusEntry kset hsame).1] at hmade
      cases hmade
    refine Or.inr ⟨kset,code,g,rfl,rfl,rfl,hnew,hother,hleft.sound,hleft.rootEntry,
      hleft.ksetEntry,?_,hleft.globals,?_⟩
    · intro this hthis
      obtain ⟨hmade,hentry⟩ := hleft.statusEntry this hthis
      refine ⟨?_,hentry⟩
      have hne : this≠kset := fun h => hother (h ▸ hthis)
      have hner : this≠kernelKobj := by
        rintro rfl
        have hroot' : u.made this=true := congrArg Entry.made hchanged.above
        rw [hmade] at hroot'
        cases hroot'
      exact (congrArg Entry.made (hchanged.others this hne hner)).symm.trans hmade
    · intro j hj hjk hjt
      rw [hleft.others j hj hjk hjt,hchanged.others j hjk hj]

/-- A load keeps the account. -/
theorem Ledger.load (hl : Ledger kernelKobj s) {o : Outcomes K}
    (h : step kernelKobj s (.load o)=some s') : Ledger kernelKobj s' := by
  obtain ⟨hloaded,rfl | ⟨kset,code,g,hkset,hnow,huses,hnew,hother,hleft⟩⟩ := load_cases hl h
  · exact hl
  obtain ⟨husesThis,husesKset,husesOthers⟩ := record_spec hkset s.uses
  rw [←huses] at husesThis husesKset husesOthers
  have hmade : s.tree.made kernelKobj=true := congrArg Entry.made hl.root
  have hner : kernelKobj≠kset := by
    rintro rfl
    rw [hmade] at hnew
    cases hnew
  have hnet : o.statusModule≠some kernelKobj := by
    intro hthis
    rw [(hleft.statusEntry kernelKobj hthis).1] at hmade
    cases hmade
  have holder : s'.uses kernelKobj=none := (husesOthers _ hner hnet).trans hl.older
  -- what a successful load made is of the loaded module
  have hcurrent : code=0 → s'.Current kset ∧ ∀ this,o.statusModule=some this → s'.Current this := by
    intro hcode
    obtain ⟨this,hthis,hg⟩ := hleft.globals hcode
    rw [if_pos hcode,hg] at hnow
    refine ⟨⟨_,hnow,Or.inl rfl⟩,fun k hk => ⟨_,hnow,Or.inr ?_⟩⟩
    exact hthis.symm.trans hk
  refine ⟨⟨hleft.sound.toKept,?_,?_,?_,?_⟩,hleft.sound,holder⟩
  · rw [hleft.rootEntry,hnow]
    by_cases hcode : code=0
    · rw [if_pos hcode,if_pos hcode]
      rfl
    · rw [if_neg hcode,if_neg hcode]
      rfl
  · intro g' hg'
    rw [hnow] at hg'
    obtain ⟨hcode,hg'⟩ := Option.ite_none_right_eq_some.mp hg'
    obtain rfl := Option.some.inj hg'
    obtain ⟨this,hthis,hg⟩ := hleft.globals hcode
    have hentry := (hleft.statusEntry this hthis).2
    have hentry' := hleft.ksetEntry
    rw [if_pos hcode] at hentry hentry'
    exact ⟨kset,this,hg,husesKset hother,husesThis this hthis,hentry',hentry⟩
  · intro k use hk hnot
    by_cases hkt : o.statusModule=some k
    · have hcode : code≠0 := fun hcode => hnot ((hcurrent hcode).2 k hkt)
      obtain rfl := Option.some.inj ((husesThis k hkt).symm.trans hk)
      rw [(hleft.statusEntry k hkt).2,if_neg hcode]
      rfl
    by_cases hkk : k=kset
    · subst hkk
      have hcode : code≠0 := fun hcode => hnot (hcurrent hcode).1
      obtain rfl := Option.some.inj ((husesKset hother).symm.trans hk)
      rw [hleft.ksetEntry,if_neg hcode]
      rfl
    · have hkr : k≠kernelKobj := fun h => by rw [h,holder] at hk; cases hk
      rw [hleft.others k hkr hkk hkt]
      refine hl.left k use ((husesOthers k hkk hkt).symm.trans hk) ?_
      rintro ⟨g',hg',_⟩
      rw [hloaded] at hg'
      cases hg'
  · intro k hk hkr
    have hkt : o.statusModule≠some k := by
      intro hkt
      rw [husesThis k hkt] at hk
      cases hk
    have hkk : k≠kset := by
      rintro rfl
      rw [husesKset hkt] at hk
      cases hk
    rw [hleft.others k hkr hkk hkt]
    exact hl.others k ((husesOthers k hkk hkt).symm.trans hk) hkr

/-- An unload keeps the account. -/
theorem Ledger.unload (hl : Ledger kernelKobj s) (h : step kernelKobj s .unload=some s') :
    Ledger kernelKobj s' := by
  obtain ⟨g,hloaded,h⟩ := Option.bind_eq_some_iff.mp h
  obtain ⟨⟨g',t⟩,hexit,rfl⟩ := Option.map_eq_some_iff.mp h
  obtain ⟨kset,this,rfl,hkset,hthis,hksetEntry,hthisEntry⟩ := hl.globals g hloaded
  have hroot := hl.root
  rw [hloaded] at hroot
  obtain ⟨u,hu,hsound,hrootEntry,hgone,hstranded,hothers⟩ :=
    statusModuleExit_spec hl.sound hroot hksetEntry hthisEntry
  rw [hu] at hexit
  cases hexit
  refine ⟨⟨hsound.toKept,hrootEntry,?_,?_,?_⟩,hsound,hl.older⟩
  · intro g hg
    cases hg
  · intro k use hk _
    change s.uses k=some use at hk
    by_cases hkk : k=kset
    · subst hkk
      obtain rfl := Option.some.inj (hkset.symm.trans hk)
      exact hgone
    by_cases hkt : k=this
    · subst hkt
      obtain rfl := Option.some.inj (hthis.symm.trans hk)
      exact hstranded
    · have hkr : k≠kernelKobj := fun h => by rw [h,hl.older] at hk; cases hk
      refine (hothers k hkr hkk hkt).trans (hl.left k use hk ?_)
      rintro ⟨g,hg,hcurrent⟩
      obtain rfl := Option.some.inj (hloaded.symm.trans hg)
      rcases hcurrent with hcurrent | hcurrent
      · exact hkk (Option.some.inj hcurrent).symm
      · exact hkt (Option.some.inj hcurrent).symm
  · intro k hk hkr
    change s.uses k=none at hk
    have hkk : k≠kset := by
      rintro rfl
      rw [hkset] at hk
      cases hk
    have hkt : k≠this := by
      rintro rfl
      rw [hthis] at hk
      cases hk
    exact (hothers k hkr hkk hkt).trans (hl.others k hk hkr)

/-- Nothing is made before the first load. -/
theorem start_ledger (kernelKobj : K) : Ledger kernelKobj (start kernelKobj) := by
  have hrun : run KObjectTrees.step KObjectTrees.start
      [.construct kernelKobj,.initAndAdd kernelKobj none 0]=some (booted kernelKobj) := by
    simp [run,KObjectTrees.step,KObjectTrees.start,booted]
  have hproper : Guarded KObjectTrees.step Proper KObjectTrees.start
      [.construct kernelKobj,.initAndAdd kernelKobj none 0] := by
    rintro _ ⟨⟩
    refine ⟨trivial,?_⟩
    intro t _
    refine ⟨⟨rfl,?_⟩,trivial⟩
    intro p hp
    cases hp
  have hsound := run_invariant (fun hs hg h => step_sound hs hg h) start_sound hproper hrun
  refine ⟨⟨hsound.toKept,?_,?_,?_,?_⟩,hsound,rfl⟩
  · simp [entries,start,booted,KObjectTrees.start,initAndAdd,kobjectAdd,kobjectInit,Entry.root]
  · intro g hg
    cases hg
  · intro k use hk
    cases hk
  · intro k _ hk
    simp [entries,start,booted,KObjectTrees.start,initAndAdd,kobjectAdd,kobjectInit,Entry.blank,hk]

/-- Loads and unloads of the status module in any order, with any outcome of
each step. After every one of them each kset but that of a loaded module was
released once and freed, whereas each StatusModule that any load allocated is
in memory, where after its load or unload it has one reference, no directory
and no release to come. -/
theorem loads_accounted (kernelKobj : K) (actions : List (Action K)) :
    Along (step kernelKobj) (Accounted kernelKobj) (start kernelKobj) actions := by
  refine along_of_preserved (I := Ledger kernelKobj) Ledger.toAccounted ?_
    (start_ledger kernelKobj)
  intro s a t hl h
  cases a with
  | load o => exact hl.load h
  | unload => exact hl.unload h

/-- After one load and its unload, and a load that sysfs refused, both
StatusModules are left. -/
example : (run (step 0) (start 0) [.load ⟨some 1,some 2,0⟩,.unload,.load ⟨some 3,some 4,-17⟩]).map
    (fun s => [1,2,3,4].map s.tree.stored)=some [false,true,false,true] := by decide

end Kpp.StatusModule
