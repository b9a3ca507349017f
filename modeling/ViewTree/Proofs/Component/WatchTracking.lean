import ViewTree.Proofs.Component.Lineage
import ViewTree.Proofs.Component.Watchers
/-!
# Watchers are accounted for

Handlers are registered with definitions, and a definition should list those that are registered
with it and its ancestors. `Accounts` says what every definition holds of them: what it has taken
over from its parent and, behind that, what is registered with itself. Resolving keeps it
(`resolve_accounts`), and so does every operation (`Accounts.step`). None of them loses a handler;
one is listed twice only after a definition was resolved that doubles watchers
(`Definition.Doubles`, `doubled_of_doubles`).
-/

namespace ViewTree

/-! ## Definitions that double watchers -/

/-- The handlers that a definition has taken over from its parent. -/
def Definition.inherited (d : Definition) (expr : String) : List CallbackId :=
  match d.superOptions with
  | none => []
  | some o => listed o.watch expr

/-- An ancestor has changed since the definition was merged, its watch map is another than the one
it was made with, so that it is carried over as a whole, and it lists watchers that the next merge
brings again: inherited ones, or those of layers below its own options. -/
structure Definition.Doubles (ds : List Definition) (cid : Cid) (d : Definition) : Prop where
  behind : Behind ds cid
  edited : d.options.watch ≠ d.sealedOptions.watch
  again : ∃ expr, d.inherited expr ≠ [] ∨ d.extendOptions.nestedWatchers expr ≠ []

/-- Some definition doubles watchers when it is resolved. -/
def World.Doubles (w : World) : Prop :=
  ∃ (cid : Cid) (d : Definition), w.definitions[cid]? = some d ∧ d.Doubles w.definitions cid

/-! ## Accounts -/

/-- Something has been registered with a definition that it was not made with. -/
def Definition.GivenMore (d : Definition) (own : String → List CallbackId) : Prop :=
  ∃ expr, ∃ id ∈ own expr, id ∉ listed d.sealedOptions.watch expr

/-- What is merged over a parent has all that is registered with a definition, and nothing but what
is registered with it or an ancestor. As long as no watcher has been doubled, which `single` stands
for, it has nothing else and nothing twice. -/
structure Covers (single : Prop) (carried own along : List CallbackId) : Prop where
  has : own ⊆ carried
  shows : carried ⊆ along
  perm : single → carried.Perm own

/-- A definition lists what it has taken over from its parent and what is registered with it, and
only handlers that are registered with it or an ancestor. What it extends its parent with has all
that is registered with it, unless more has been registered since it was made. As long as no watcher
has been doubled, nothing is there twice. -/
structure Accounted (single : Prop) (ds : List Definition) (regs : String → Registered) (cid : Cid)
    (d : Definition) : Prop where
  sorted : d.options.watch.Sorted
  extend_sorted : d.extendOptions.WatchSorted
  parent_lt : ∀ p, d.parent = some p → p < cid
  root : d.parent = none → d.superOptions = none
  holds : ∀ expr, d.inherited expr ++ handlersOf (regs expr) cid ⊆ listed d.options.watch expr
  shows : ∀ expr,
    listed d.options.watch expr ⊆ handlersAlong (parentsOf ds) (regs expr) cid
  inherits : ∀ p expr, d.parent = some p →
    d.inherited expr ⊆ handlersAlong (parentsOf ds) (regs expr) p
  sealed_registered : ∀ expr, listed d.sealedOptions.watch expr ⊆ (regs expr).map (·.2)
  nested : ∀ expr, d.extendOptions.nestedWatchers expr ⊆ handlersOf (regs expr) cid
  extends_with : d.GivenMore (fun expr => handlersOf (regs expr) cid) ∨
    ∀ expr, Covers single (d.extendOptions.watchers expr) (handlersOf (regs expr) cid)
      (handlersAlong (parentsOf ds) (regs expr) cid)
  lists : single → ∀ expr,
    (listed d.options.watch expr).Perm (d.inherited expr ++ handlersOf (regs expr) cid)
  version_le : ∀ p dp, d.parent = some p → ds[p]? = some dp → d.superVersion ≤ dp.version
  current : ∀ p dp, d.parent = some p → ds[p]? = some dp → d.superVersion = dp.version →
    d.superOptions = some dp.options

/-- Every definition lists what it should, and handlers are registered with definitions. -/
structure Accounts (single : Prop) (ds : List Definition) (regs : String → Registered) : Prop where
  registered_lt : ∀ expr, ∀ e ∈ regs expr, e.1 < ds.length
  accounted : ∀ cid d, ds[cid]? = some d → Accounted single ds regs cid d

section

variable {single single' : Prop} {ds ds' : List Definition} {regs regs' : String → Registered}
  {cid c : Cid} {d d' : Definition}

theorem Covers.mono {carried own along along' : List CallbackId}
    (h : Covers single carried own along) (halong : along ⊆ along') (hsingle : single' → single) :
    Covers single' carried own along' :=
  ⟨h.has, List.Subset.trans h.shows halong, fun h' => h.perm (hsingle h')⟩

theorem Accounts.start : Accounts single [] fun _ => [] :=
  ⟨fun _ _ he => (List.not_mem_nil he).elim, fun _ _ hd => nomatch hd⟩

theorem Accounted.own_listed (h : Accounted single ds regs cid d) (expr : String) :
    handlersOf (regs expr) cid ⊆ listed d.options.watch expr :=
  (List.append_subset.1 (h.holds expr)).2

/-- A definition stays accounted for if nothing is registered with it and its parent stays or moves
on. -/
theorem Accounted.keep (h : Accounted single ds regs c d) (hsingle : single' → single)
    (hregs : ∀ expr, regs expr ⊆ regs' expr)
    (hown : ∀ expr, handlersOf (regs' expr) c = handlersOf (regs expr) c)
    (hlineage : ∀ p ≤ c, lineage (parentsOf ds') p = lineage (parentsOf ds) p)
    (hversion : ∀ p dp, d.parent = some p → ds'[p]? = some dp →
      ds[p]? = some dp ∨ d.superVersion < dp.version) : Accounted single' ds' regs' c d := by
  have halong (p : Cid) (hle : p ≤ c) (expr : String) :
      handlersAlong (parentsOf ds) (regs expr) p ⊆
        handlersAlong (parentsOf ds') (regs' expr) p := by
    rw [handlersAlong, ← hlineage p hle]
    exact handlersAlong_mono _ (hregs expr) p
  have hextends : d.GivenMore (fun expr => handlersOf (regs' expr) c) ∨
      ∀ expr, Covers single' (d.extendOptions.watchers expr) (handlersOf (regs' expr) c)
        (handlersAlong (parentsOf ds') (regs' expr) c) := by
    simp only [hown]
    refine h.extends_with.imp_right fun hextends expr => ?_
    exact (hextends expr).mono (halong c (Nat.le_refl c) expr) hsingle
  exact
    { sorted := h.sorted
      extend_sorted := h.extend_sorted
      parent_lt := h.parent_lt
      root := h.root
      holds := fun expr => hown expr ▸ h.holds expr
      shows := fun expr => List.Subset.trans (h.shows expr) (halong c (Nat.le_refl c) expr)
      inherits := fun p expr hp =>
        List.Subset.trans (h.inherits p expr hp) (halong p (Nat.le_of_lt (h.parent_lt p hp)) expr)
      sealed_registered := fun expr =>
        List.Subset.trans (h.sealed_registered expr) (List.map_subset _ (hregs expr))
      nested := fun expr => hown expr ▸ h.nested expr
      extends_with := hextends
      lists := fun h' expr => hown expr ▸ h.lists (hsingle h') expr
      version_le := fun p dp hp hdp =>
        (hversion p dp hp hdp).elim (h.version_le p dp hp) Nat.le_of_lt
      current := fun p dp hp hdp hsame =>
        (hversion p dp hp hdp).elim (fun hdp => h.current p dp hp hdp hsame)
          fun hlater => absurd hsame (Nat.ne_of_lt hlater) }

theorem Accounts.mono (ht : Accounts single ds regs) (hsingle : single' → single) :
    Accounts single' ds regs := by
  refine ⟨ht.registered_lt, fun c dc hdc => ?_⟩
  exact (ht.accounted c dc hdc).keep hsingle (fun _ => List.Subset.refl _) (fun _ => rfl)
    (fun _ _ => rfl) fun _ _ _ hdp => .inl hdp

/-- One definition is replaced by one of a later version, with which more may be registered. -/
theorem Accounts.replace (ht : Accounts single ds regs) (hd : ds[cid]? = some d)
    (hversion : d.version < d'.version) (hparent : d'.parent = d.parent)
    (ids : String → List CallbackId)
    (hregs : ∀ expr, regs' expr = regs expr ++ (ids expr).map fun id => (cid, id))
    (hnew : Accounted single ds regs' cid d') : Accounts single (ds.set cid d') regs' := by
  have hlt := (List.getElem?_eq_some_iff.1 hd).1
  have hparents := parentsOf_set hd hparent
  constructor
  · intro expr e he
    rw [List.length_set]
    rw [hregs, List.mem_append] at he
    rcases he with he | he
    · exact ht.registered_lt expr e he
    · obtain ⟨id, -, rfl⟩ := List.mem_map.1 he
      exact hlt
  · intro c dc hdc
    by_cases heq : c = cid
    · subst heq
      rw [List.getElem?_set_self hlt] at hdc
      cases hdc
      refine hnew.keep id (fun _ => List.Subset.refl _) (fun _ => rfl)
        (fun p _ => hparents ▸ rfl) fun p dp hp hdp => .inl ?_
      rwa [List.getElem?_set_ne (Nat.ne_of_gt (hnew.parent_lt p hp))] at hdp
    · rw [List.getElem?_set_ne (Ne.symm heq)] at hdc
      have hc := ht.accounted c dc hdc
      refine hc.keep id (fun expr => hregs expr ▸ List.subset_append_left _ _) (fun expr => ?_)
        (fun p _ => hparents ▸ rfl) fun p dp hp hdp => ?_
      · rw [hregs, handlersOf_append, handlersOf_of_ne heq, List.append_nil]
      · -- The children of the one replaced were merged with an earlier version of it.
        by_cases hpeq : p = cid
        · subst hpeq
          rw [List.getElem?_set_self hlt] at hdp
          cases hdp
          exact .inr (Nat.lt_of_le_of_lt (hc.version_le p d hp hd) hversion)
        · exact .inl (by rwa [List.getElem?_set_ne (Ne.symm hpeq)] at hdp)

/-- One definition is added, with what is registered with it. -/
theorem Accounts.append (ht : Accounts single ds regs) (ids : String → List CallbackId)
    (hregs : ∀ expr, regs' expr = regs expr ++ (ids expr).map fun id => (ds.length, id))
    (hnew : Accounted single (ds ++ [d]) regs' ds.length d) :
    Accounts single (ds ++ [d]) regs' := by
  constructor
  · intro expr e he
    rw [List.length_append, List.length_singleton]
    rw [hregs, List.mem_append] at he
    rcases he with he | he
    · exact Nat.lt_succ_of_lt (ht.registered_lt expr e he)
    · obtain ⟨id, -, rfl⟩ := List.mem_map.1 he
      exact Nat.lt_succ_self _
  · intro c dc hdc
    by_cases hlt : c < ds.length
    · rw [List.getElem?_append_left hlt] at hdc
      have hc := ht.accounted c dc hdc
      refine hc.keep id (fun expr => hregs expr ▸ List.subset_append_left _ _) (fun expr => ?_)
        (fun p hle => lineage_parentsOf_append (Nat.lt_of_le_of_lt hle hlt))
        fun p dp hp hdp => .inl ?_
      · rw [hregs, handlersOf_append, handlersOf_of_ne (Nat.ne_of_lt hlt), List.append_nil]
      · rwa [List.getElem?_append_left (Nat.lt_trans (hc.parent_lt p hp) hlt)] at hdp
    · have hle := (List.getElem?_eq_some_iff.1 hdc).1
      rw [List.length_append, List.length_singleton] at hle
      obtain rfl : c = ds.length := Nat.le_antisymm (Nat.le_of_lt_succ hle) (Nat.not_lt.1 hlt)
      rw [List.getElem?_concat_length] at hdc
      cases hdc
      exact hnew

end

/-! ## Resolving -/

section

variable {single : Prop} {ds : List Definition} {regs : String → Registered} {cid : Cid}
  {d : Definition} {w : World}

/-- What a definition carries over to the next merge covers what is registered with it. There is
more to it only if the definition carries a map that lists more. -/
theorem Accounted.carries (h : Accounted single ds regs cid d)
    (hagain : single → d.options.watch ≠ d.sealedOptions.watch → ∀ expr,
      d.inherited expr = [] ∧ d.extendOptions.nestedWatchers expr = []) (expr : String) :
    Covers single ((carryEdits d.options d.sealedOptions d.extendOptions).watchers expr)
      (handlersOf (regs expr) cid) (handlersAlong (parentsOf ds) (regs expr) cid) := by
  rw [watchers_carryEdits]
  split
  · rename_i hsealed
    rw [← watchers_eq]
    obtain ⟨expr', id, hid, hnot⟩ | hextends := h.extends_with
    · -- What was registered later is listed, and not by the map the definition was made with.
      rw [← hsealed] at hnot
      exact absurd (h.own_listed expr' hid) hnot
    · exact hextends expr
  · rename_i hedited
    have hnested := List.Subset.trans (h.nested expr) (handlersOf_subset_along (parentsOf ds) _ cid)
    refine ⟨List.subset_append_of_subset_right _ (h.own_listed expr),
      List.append_subset.2 ⟨hnested, h.shows expr⟩, fun hsingle => ?_⟩
    obtain ⟨hinherited, hnone⟩ := hagain hsingle hedited expr
    rw [hnone, List.nil_append]
    have hlists := h.lists hsingle expr
    rwa [hinherited, List.nil_append] at hlists

/-- What resolving a definition comes to: it lists all that is registered with it and its ancestors,
and has moved on exactly if it was behind. -/
structure ResolvedTo (single : Prop) (regs : String → Registered) (cid : Cid) (w : World)
    (r : ComponentOptions × World) : Prop where
  accounts : Accounts single r.2.definitions regs
  parents : parentsOf r.2.definitions = parentsOf w.definitions
  complete : ∀ expr,
    handlersAlong (parentsOf w.definitions) (regs expr) cid ⊆ listed r.1.watch expr
  lists : single → ∀ expr, (listed r.1.watch expr).Perm
    (handlersAlong (parentsOf w.definitions) (regs expr) cid)
  result : ∃ d d', w.definitions[cid]? = some d ∧ r.2.definitions[cid]? = some d' ∧
    d'.options = r.1 ∧ (Behind w.definitions cid → d.version < d'.version) ∧
    (¬ Behind w.definitions cid → d'.version = d.version)
  later : ∀ c, cid < c → r.2.definitions[c]? = w.definitions[c]?

theorem resolvedTo_root (ht : Accounts single w.definitions regs)
    (hd : w.definitions[cid]? = some d) (hparent : d.parent = none) :
    ResolvedTo single regs cid w ((Run.resolveOptions cid).run w) := by
  have ha := ht.accounted cid d hd
  have hbehind := not_behind_root hd hparent
  have halong (expr : String) : handlersAlong (parentsOf w.definitions) (regs expr) cid =
      handlersOf (regs expr) cid :=
    handlersAlong_root (getElem?_parentsOf hd hparent)
  rw [resolve_root hd hparent]
  refine ⟨ht, rfl, fun expr => ?_, fun hsingle expr => ?_, ⟨d, d, hd, hd, rfl,
    fun h => absurd h hbehind, fun _ => rfl⟩, fun _ _ => rfl⟩
  · rw [halong]
    exact ha.own_listed expr
  · have hlists := ha.lists hsingle expr
    rw [Definition.inherited, ha.root hparent] at hlists
    rw [halong]
    exact hlists

section

variable {p : Cid} {r : ComponentOptions × World}

theorem ResolvedTo.mono (hr : ResolvedTo single regs cid w r) {single' : Prop}
    (hsingle : single' → single) : ResolvedTo single' regs cid w r :=
  { hr with
    accounts := hr.accounts.mono hsingle
    lists := fun h => hr.lists (hsingle h) }

/-- A resolved definition lists nothing else than what is registered with it and its ancestors, in
a sorted map. -/
theorem ResolvedTo.shows (hr : ResolvedTo single regs cid w r) :
    r.1.watch.Sorted ∧ ∀ expr,
      listed r.1.watch expr ⊆ handlersAlong (parentsOf w.definitions) (regs expr) cid := by
  obtain ⟨-, d, -, hd, hoptions, -⟩ := hr.result
  have ha := hr.accounts.accounted cid d hd
  rw [← hoptions, ← hr.parents]
  exact ⟨ha.sorted, ha.shows⟩

/-- A definition is merged again exactly if it is behind. -/
theorem ResolvedTo.moved_iff (hr : ResolvedTo single regs p w r)
    (ht : Accounts single w.definitions regs) (hd : w.definitions[cid]? = some d)
    (hparent : d.parent = some p) :
    ((r.2.definitions[p]?).getD default).version ≠ d.superVersion ↔ Behind w.definitions cid := by
  have ha := ht.accounted cid d hd
  obtain ⟨dp, dp', hdp, hdp', -, hmoved, hsame⟩ := hr.result
  rw [hdp', Option.getD_some, behind_child hd hparent (ha.parent_lt p hparent) hdp]
  by_cases hbehind : Behind w.definitions p
  · have hle := ha.version_le p dp hparent hdp
    have hlt := hmoved hbehind
    exact iff_of_true (Nat.ne_of_gt (Nat.lt_of_le_of_lt hle hlt)) (.inr hbehind)
  · rw [hsame hbehind, or_iff_left hbehind]
    exact ne_comm

/-- A definition that is not behind holds what is registered with it and its ancestors. -/
theorem ResolvedTo.unmoved (hr : ResolvedTo single regs p w r) (hd : w.definitions[cid]? = some d)
    (hparent : d.parent = some p) (hlt : p < cid)
    (hsame : ((r.2.definitions[p]?).getD default).version = d.superVersion)
    (hbehind : ¬ Behind w.definitions cid) : ResolvedTo single regs cid w (d.options, r.2) := by
  have hd' := (hr.later cid hlt).trans hd
  have ha := hr.accounts.accounted cid d hd'
  obtain ⟨-, dp', -, hdp', hoptions, -⟩ := hr.result
  rw [hdp', Option.getD_some] at hsame
  have hinherited (expr : String) : d.inherited expr = listed r.1.watch expr := by
    rw [Definition.inherited, ha.current p dp' hparent hdp' hsame.symm, hoptions]
  have halong (expr : String) : handlersAlong (parentsOf w.definitions) (regs expr) cid =
      handlersOf (regs expr) cid ++ handlersAlong (parentsOf w.definitions) (regs expr) p :=
    handlersAlong_child (getElem?_parentsOf hd hparent) hlt
  refine ⟨hr.accounts, hr.parents, fun expr => ?_, fun hsingle expr => ?_, ⟨d, d, hd, hd', rfl,
    fun h => absurd h hbehind, fun _ => rfl⟩, fun c hc => hr.later c (Nat.lt_trans hlt hc)⟩
  · rw [halong]
    refine List.append_subset.2 ⟨ha.own_listed expr, List.Subset.trans (hr.complete expr) ?_⟩
    rw [← hinherited]
    exact (List.append_subset.1 (ha.holds expr)).1
  · have hlists := ha.lists hsingle expr
    rw [hinherited] at hlists
    rw [halong]
    exact (hlists.trans List.perm_append_comm).trans ((hr.lists hsingle expr).append_left _)

/-- A definition that is merged again over its resolved parent lists what it should, and nothing
else unless it carries a map that lists more. -/
theorem ResolvedTo.moved (hr : ResolvedTo single regs p w r) (hd : w.definitions[cid]? = some d)
    (hparent : d.parent = some p) (hlt : p < cid) (hbehind : Behind w.definitions cid)
    (hagain : single → d.options.watch ≠ d.sealedOptions.watch → ∀ expr,
      d.inherited expr = [] ∧ d.extendOptions.nestedWatchers expr = []) :
    ResolvedTo single regs cid w ((Run.remerge cid d r.1
      ((r.2.definitions[p]?).getD default).version).run r.2) := by
  have hd' := (hr.later cid hlt).trans hd
  have ha := hr.accounts.accounted cid d hd'
  obtain ⟨hsuper, hshows⟩ := hr.shows
  obtain ⟨-, dp, -, hdp, hoptions, -⟩ := hr.result
  rw [hdp, Option.getD_some]
  obtain ⟨hwatch, hset⟩ := remerge_watch hd' r.1 dp.version
  generalize (Run.remerge cid d r.1 dp.version).run r.2 = r' at hwatch hset ⊢
  have hcarried := watchSorted_carryEdits ha.sorted ha.extend_sorted d.sealedOptions
  have hcarries := ha.carries hagain
  have hlisted (expr : String) := listed_merged hcarried hwatch expr
  have hsorted : r'.1.watch.Sorted := hwatch ▸ sorted_foldl hsuper _
  have halong (expr : String) : handlersAlong (parentsOf w.definitions) (regs expr) cid =
      handlersOf (regs expr) cid ++ handlersAlong (parentsOf w.definitions) (regs expr) p :=
    handlersAlong_child (getElem?_parentsOf hd hparent) hlt
  have hself := List.getElem?_set_self (a := { d with
    version := d.version + 1, options := r'.1, superVersion := dp.version
    superOptions := some r.1
    extendOptions := carryEdits d.options d.sealedOptions d.extendOptions })
    (List.getElem?_eq_some_iff.1 hd').1
  refine ⟨?_, ?_, fun expr => ?_, fun hsingle expr => ?_, ⟨d, _, hd, hset ▸ hself, rfl,
    fun _ => Nat.lt_succ_self _, fun h => absurd hbehind h⟩, fun c hc => ?_⟩
  · rw [hset]
    refine hr.accounts.replace hd' (Nat.lt_succ_self _) rfl (fun _ => [])
      (fun _ => (List.append_nil _).symm) ?_
    refine ⟨hsorted, hcarried, ha.parent_lt, ?_, fun expr => ?_, fun expr => ?_, ?_,
      ha.sealed_registered, ha.nested, .inr hcarries, fun hsingle expr => ?_, ?_, ?_⟩
    · exact fun hroot => nomatch hparent.symm.trans hroot
    · rw [hlisted]
      exact List.append_subset.2 ⟨List.subset_append_left _ _,
        List.subset_append_of_subset_right _ (hcarries expr).has⟩
    · rw [hlisted]
      refine List.append_subset.2 ⟨?_, (hcarries expr).shows⟩
      rw [hr.parents, halong]
      exact List.subset_append_of_subset_right _ (hshows expr)
    · intro q expr hq
      cases hparent.symm.trans hq
      rw [hr.parents]
      exact hshows expr
    · rw [hlisted]
      exact ((hcarries expr).perm hsingle).append_left _
    · intro q dq hq hdq
      cases hparent.symm.trans hq
      cases hdp.symm.trans hdq
      exact Nat.le_refl _
    · intro q dq hq hdq _
      cases hparent.symm.trans hq
      cases hdp.symm.trans hdq
      exact congrArg some hoptions.symm
  · rw [hset]
    refine Eq.trans ?_ hr.parents
    exact parentsOf_set hd' rfl
  · rw [hlisted, halong]
    exact List.append_subset.2 ⟨List.subset_append_of_subset_right _ (hcarries expr).has,
      List.subset_append_of_subset_left _ (hr.complete expr)⟩
  · rw [hlisted, halong]
    have hperm := (hr.lists hsingle expr).append ((hcarries expr).perm hsingle)
    exact hperm.trans List.perm_append_comm
  · rw [hset, List.getElem?_set_ne (Nat.ne_of_lt hc)]
    exact hr.later c (Nat.lt_trans hlt hc)

end

/-- Resolving a definition makes it list what it should, and nothing twice as long as no definition
doubles watchers. -/
theorem resolve_accounts (ht : Accounts single w.definitions regs) (hsingle : single → ¬ w.Doubles)
    (hlt : cid < w.definitions.length) :
    ResolvedTo single regs cid w ((Run.resolveOptions cid).run w) := by
  -- A parent is defined before those that extend it, so the induction is on the definition.
  induction cid using Nat.strongRecOn with
  | ind cid ih =>
    obtain ⟨d, hd⟩ : ∃ d, w.definitions[cid]? = some d := ⟨_, List.getElem?_eq_getElem hlt⟩
    cases hparent : d.parent with
    | none => exact resolvedTo_root ht hd hparent
    | some p =>
      have hplt := (ht.accounted cid d hd).parent_lt p hparent
      have hr := ih p hplt (Nat.lt_trans hplt hlt)
      rw [resolve_child hd hparent hplt]
      dsimp only
      split
      · rename_i hsame
        refine hr.unmoved hd hparent hplt hsame fun hbehind => ?_
        exact (hr.moved_iff ht hd hparent).2 hbehind hsame
      · rename_i hmoved
        have hbehind := (hr.moved_iff ht hd hparent).1 hmoved
        refine hr.moved hd hparent hplt hbehind fun h hedited => ?_
        by_contra hagain
        simp only [not_forall, not_and_or] at hagain
        exact hsingle h ⟨cid, d, hd, hbehind, hedited, hagain⟩

/-- A definition that doubles watchers lists one twice when it is resolved. -/
theorem doubled_of_doubles (ht : Accounts single w.definitions regs)
    (hd : w.definitions[cid]? = some d) (hdoubles : d.Doubles w.definitions cid) :
    ∃ expr, ¬ (listed ((Run.resolveOptions cid).run w).1.watch expr).Nodup := by
  have ha := ht.accounted cid d hd
  cases hparent : d.parent with
  | none => exact absurd hdoubles.behind (not_behind_root hd hparent)
  | some p =>
    have hplt := ha.parent_lt p hparent
    have hlt := (List.getElem?_eq_some_iff.1 hd).1
    have hr := resolve_accounts (ht.mono False.elim) False.elim (Nat.lt_trans hplt hlt)
    rw [resolve_child hd hparent hplt]
    dsimp only
    rw [if_neg ((hr.moved_iff (ht.mono False.elim) hd hparent).2 hdoubles.behind)]
    obtain ⟨hwatch, -⟩ := remerge_watch ((hr.later cid hplt).trans hd)
      ((Run.resolveOptions p).run w).1
      ((((Run.resolveOptions p).run w).2.definitions[p]?).getD default).version
    have hcarried := watchSorted_carryEdits ha.sorted ha.extend_sorted d.sealedOptions
    obtain ⟨expr, hagain⟩ := hdoubles.again
    refine ⟨expr, fun hnodup => ?_⟩
    -- The map is carried whole, so all that the definition lists comes again.
    rw [listed_merged hcarried hwatch, watchers_carryEdits, if_neg hdoubles.edited] at hnodup
    obtain ⟨-, hlayers, hapart⟩ := List.nodup_append.1 hnodup
    rcases hagain with hinherited | hnested
    · obtain ⟨id, hid⟩ := List.exists_mem_of_ne_nil _ hinherited
      have hparents := hr.complete expr (ha.inherits p expr hparent hid)
      have hlisted := ha.holds expr (List.mem_append_left _ hid)
      exact hapart id hparents id (List.mem_append_right _ hlisted) rfl
    · obtain ⟨id, hid⟩ := List.exists_mem_of_ne_nil _ hnested
      have hlisted := ha.own_listed expr (ha.nested expr hid)
      exact (List.nodup_append.1 hlayers).2.2 id hid id hlisted rfl

end

/-! ## Operations -/

namespace Op

/-- The handlers that an operation registers for an expression. -/
def registers (w : World) (expr : String) : Op → Registered
  | extend _ options => (options.watchers expr).map fun id => (w.definitions.length, id)
  | edit cid e => (e.watchers (w.latest cid) expr).map fun id => (cid, id)
  | _ => []

/-- The operation is on a definition that exists, and keeps what is listed. -/
def KeepsWatchers (w : World) : Op → Prop
  | extend parent options => parent < w.definitions.length ∧ options.WatchSorted
  | edit cid e => cid < w.definitions.length ∧ e.KeepsWatchers (w.latest cid)
  | _ => True

end Op

section

variable {single : Prop} {w : World} {regs : String → Registered} {cid : Cid}

theorem watchSorted_empty : ComponentOptions.empty.WatchSorted :=
  (watchSorted_iff _).2 ⟨fun _ hm => (List.not_mem_nil hm).elim, Dict.sorted_nil⟩

/-- A base definition lists nothing. -/
theorem Accounts.base (ht : Accounts single w.definitions regs) :
    Accounts single (Run.defineBase.run w).2.definitions regs := by
  rw [defineBase_spec]
  have hown (expr : String) : handlersOf (regs expr) w.definitions.length = [] :=
    handlersOf_eq_nil fun e he => Nat.ne_of_lt (ht.registered_lt expr e he)
  refine ht.append (fun _ => []) (fun _ => (List.append_nil _).symm) ?_
  exact
    { sorted := Dict.sorted_nil
      extend_sorted := watchSorted_empty
      parent_lt := fun _ hp => nomatch hp
      root := fun _ => rfl
      holds := fun expr => by rw [hown]; exact List.nil_subset _
      shows := fun _ => List.nil_subset _
      inherits := fun _ _ hp => nomatch hp
      sealed_registered := fun _ => List.nil_subset _
      nested := fun _ => List.nil_subset _
      extends_with := .inr fun expr => by
        rw [hown]
        exact ⟨List.nil_subset _, List.nil_subset _, fun _ => .refl _⟩
      lists := fun _ expr => by rw [hown]; exact .refl _
      version_le := fun _ _ hp => nomatch hp
      current := fun _ _ hp => nomatch hp }

/-- A definition that extends another lists what its parent does and what it is made with. -/
theorem Accounts.extend (ht : Accounts single w.definitions regs)
    (hsingle : single → ¬ w.Doubles) {p : Cid} (hlt : p < w.definitions.length)
    {options : ComponentOptions} (hoptions : options.WatchSorted) :
    Accounts single ((Run.extendDefinition p options).run w).2.definitions fun expr =>
      regs expr ++ (Op.extend p options).registers w expr := by
  have hr := resolve_accounts ht hsingle hlt
  obtain ⟨merged, hwatch, hset⟩ := extendDefinition_watch w p options
  rw [hset]
  generalize (Run.resolveOptions p).run w = r at hr hwatch
  have hlength : r.2.definitions.length = w.definitions.length := length_of_parents hr.parents
  obtain ⟨hsuper, hshows⟩ := hr.shows
  obtain ⟨-, dp, -, hdp, hdpoptions, -⟩ := hr.result
  rw [hdp, Option.getD_some]
  have hplt : p < r.2.definitions.length := hlength ▸ hlt
  have hown (expr : String) : handlersOf (regs expr ++ (Op.extend p options).registers w expr)
      r.2.definitions.length = options.watchers expr := by
    rw [handlersOf_append, handlersOf_eq_nil fun e he =>
      Nat.ne_of_lt (hr.accounts.registered_lt expr e he), hlength]
    exact handlersOf_self _ _
  have hlisted (expr : String) := listed_merged hoptions hwatch expr
  -- The parent is still the one that was just resolved.
  let d : Definition := ⟨some p, 0, merged, dp.version, some r.1, options, merged⟩
  have hkept {dq : Definition} (hdq : (r.2.definitions ++ [d])[p]? = some dq) : dp = dq := by
    rw [List.getElem?_append_left hplt, hdp] at hdq
    exact Option.some.inj hdq
  have hinherits (expr : String) : listed r.1.watch expr ⊆
      handlersAlong (parentsOf (r.2.definitions ++ [d]))
        (regs expr ++ (Op.extend p options).registers w expr) p := by
    rw [handlersAlong, lineage_parentsOf_append hplt, hr.parents]
    exact List.Subset.trans (hshows expr) (handlersAlong_mono _ (List.subset_append_left _ _) p)
  have hshown (expr : String) :
      listed merged.watch expr ⊆ handlersAlong (parentsOf (r.2.definitions ++ [d]))
        (regs expr ++ (Op.extend p options).registers w expr) r.2.definitions.length := by
    have hnew : (r.2.definitions ++ [d])[r.2.definitions.length]? = some d :=
      List.getElem?_concat_length
    rw [handlersAlong_child (getElem?_parentsOf hnew rfl) hplt, hown, hlisted]
    exact List.append_subset.2 ⟨List.subset_append_of_subset_right _ (hinherits expr),
      List.subset_append_left _ _⟩
  refine hr.accounts.append options.watchers (fun expr => hlength ▸ rfl) ?_
  exact
    { sorted := hwatch ▸ sorted_foldl hsuper _
      extend_sorted := hoptions
      parent_lt := by rintro q ⟨⟩; exact hplt
      root := fun hroot => absurd hroot (Option.some_ne_none p)
      holds := fun expr => by rw [hown, hlisted]; exact List.Subset.refl _
      shows := hshown
      inherits := by rintro q expr ⟨⟩; exact hinherits expr
      sealed_registered := fun expr => List.Subset.trans (hshown expr) (handlersAlong_subset _ _ _)
      nested := fun expr => by rw [hown, watchers_eq]; exact List.subset_append_left _ _
      extends_with := .inr fun expr => by
        refine ⟨?_, ?_, fun _ => .of_eq (hown expr).symm⟩
        · rw [hown]
          exact List.Subset.refl _
        · rw [← hown]
          exact handlersOf_subset_along _ _ _
      lists := fun _ expr => by rw [hown, hlisted]; exact .refl _
      version_le := by rintro q dq ⟨⟩ hdq; exact hkept hdq ▸ Nat.le_refl _
      current := by rintro q dq ⟨⟩ hdq _; exact congrArg some (hkept hdq ▸ hdpoptions.symm) }

/-- A change adds what it registers to what its definition lists. -/
theorem Accounts.edit (ht : Accounts single w.definitions regs) {e : Edit}
    (hlt : cid < w.definitions.length) (hkeeps : e.KeepsWatchers (w.latest cid))
    (hnodup : ∀ expr, ((regs expr ++ (Op.edit cid e).registers w expr).map (·.2)).Nodup) :
    Accounts single ((e.run cid).run w).2.definitions fun expr =>
      regs expr ++ (Op.edit cid e).registers w expr := by
  obtain ⟨d, hd⟩ : ∃ d, w.definitions[cid]? = some d := ⟨_, List.getElem?_eq_getElem hlt⟩
  have hlatest : w.latest cid = d.options := by
    rw [World.latest, hd]
    rfl
  rw [hlatest] at hkeeps
  have hregisters (expr : String) : (Op.edit cid e).registers w expr =
      (e.watchers d.options expr).map fun id => (cid, id) := by
    rw [Op.registers, hlatest]
  simp only [hregisters] at hnodup ⊢
  have ha := ht.accounted cid d hd
  obtain ⟨options, hwatch, hset⟩ := Edit.run_watch (e := e) hd
  rw [hset]
  have hown (expr : String) :
      handlersOf (regs expr ++ (e.watchers d.options expr).map fun id => (cid, id)) cid =
        handlersOf (regs expr) cid ++ e.watchers d.options expr := by
    rw [handlersOf_append, handlersOf_self]
  have hlisted (expr : String) : (listed options.watch expr).Perm
      (listed d.options.watch expr ++ e.watchers d.options expr) :=
    hwatch ▸ Edit.listed_watch hkeeps expr
  have hmono (expr : String) (c : Cid) := handlersAlong_mono (parentsOf w.definitions)
    (List.subset_append_left (regs expr) ((e.watchers d.options expr).map fun id => (cid, id))) c
  have hextends : d.GivenMore
        (fun expr => handlersOf (regs expr) cid ++ e.watchers d.options expr) ∨
      ∀ expr, Covers single (d.extendOptions.watchers expr)
        (handlersOf (regs expr) cid ++ e.watchers d.options expr)
        (handlersAlong (parentsOf w.definitions)
          (regs expr ++ (e.watchers d.options expr).map fun id => (cid, id)) cid) := by
    by_cases hnone : ∀ expr, e.watchers d.options expr = []
    · simp only [hnone, List.map_nil, List.append_nil]
      exact ha.extends_with
    · obtain ⟨expr, hsome⟩ := not_forall.1 hnone
      obtain ⟨id, hid⟩ := List.exists_mem_of_ne_nil _ hsome
      refine .inl ⟨expr, id, List.mem_append_right _ hid, fun hsealed => ?_⟩
      -- What the definition was made with is registered, and nothing is registered twice.
      have hapart := hnodup expr
      rw [List.map_append, map_registered, List.nodup_append] at hapart
      exact hapart.2.2 id (ha.sealed_registered expr hsealed) id hid rfl
  refine ht.replace hd (Nat.lt_succ_self _) rfl (e.watchers d.options) (fun _ => rfl) ?_
  exact
    { sorted := hwatch ▸ Edit.sorted_watch hkeeps ha.sorted
      extend_sorted := ha.extend_sorted
      parent_lt := ha.parent_lt
      root := ha.root
      holds := fun expr => by
        rw [hown, ← List.append_assoc]
        refine List.Subset.trans ?_ (hlisted expr).symm.subset
        exact List.append_subset.2 ⟨List.subset_append_of_subset_left _ (ha.holds expr),
          List.subset_append_right _ _⟩
      shows := fun expr => by
        refine List.Subset.trans (hlisted expr).subset (List.append_subset.2 ⟨?_, ?_⟩)
        · exact List.Subset.trans (ha.shows expr) (hmono expr cid)
        · refine List.Subset.trans ?_ (handlersOf_subset_along _ _ cid)
          rw [hown]
          exact List.subset_append_right _ _
      inherits := fun p expr hp => List.Subset.trans (ha.inherits p expr hp) (hmono expr p)
      sealed_registered := fun expr =>
        List.Subset.trans (ha.sealed_registered expr)
          (List.map_subset _ (List.subset_append_left _ _))
      nested := fun expr => by
        rw [hown]
        exact List.subset_append_of_subset_left _ (ha.nested expr)
      extends_with := by
        simp only [hown]
        exact hextends
      lists := fun hsingle expr => by
        rw [hown, ← List.append_assoc]
        exact (hlisted expr).trans ((ha.lists hsingle expr).append_right _)
      version_le := ha.version_le
      current := ha.current }

/-- Every operation that keeps what is listed is accounted for, if nothing is registered twice. -/
theorem Accounts.step (ht : Accounts single w.definitions regs) (hsingle : single → ¬ w.Doubles)
    {op : Op} (hkeeps : op.KeepsWatchers w)
    (hnodup : ∀ expr, ((regs expr ++ op.registers w expr).map (·.2)).Nodup) :
    Accounts single (op.run.run w).2.definitions fun expr =>
      regs expr ++ op.registers w expr := by
  cases op with
  | base =>
    simp only [Op.registers, List.append_nil]
    exact ht.base
  | extend p options => exact ht.extend hsingle hkeeps.1 hkeeps.2
  | edit cid e => exact ht.edit hkeeps.1 hkeeps.2 hnodup
  | resolve cid =>
    simp only [Op.registers, List.append_nil]
    show Accounts single ((Run.resolveOptions cid).run w).2.definitions regs
    by_cases hlt : cid < w.definitions.length
    · exact (resolve_accounts ht hsingle hlt).accounts
    · rw [resolve_missing (List.getElem?_eq_none (Nat.not_lt.1 hlt))]
      exact ht

end

end ViewTree
