import ViewTree.Proofs.Component.Resolution
/-!
# The ledger is read off the definitions

`Tracks` says that the definitions of a running application stand for a history: each caches what
its account says, and is as new as its parent, or will be merged again. Resolving a definition
gives what the ledger says (`resolve_tracks`), and every valid operation that keeps what is
inherited leads from definitions that stand for a history to definitions that stand for the next
(`Tracks.step`).
-/

namespace ViewTree

/-- A definition stands for its account, as far as some kinds of entries go. -/
structure Stands (K : AssetKind → Prop) (ds : List Definition) (h : History) (cid : Cid)
    (d : Definition) (a : Account) : Prop where
  parent : d.parent = a.parent
  options_sorted : d.options.Sorted
  sealed_sorted : d.sealedOptions.Sorted
  extend_sorted : d.extendOptions.AllSorted
  root : a.parent = none → ∀ k, K k → d.options.find? k = a.own k
  parent_lt : ∀ p, a.parent = some p → p < cid
  caches : ∀ p, a.parent = some p → ∀ k, K k →
    Caches d.options d.sealedOptions d.extendOptions (selfEntry (h.ledger.name cid) cid k)
      (a.own k) (a.made k) (h.ledger.shown cid k) (h.known cid k)
  version_le : ∀ p dp, a.parent = some p → ds[p]? = some dp → d.superVersion ≤ dp.version
  merged : ∀ p dp, a.parent = some p → ds[p]? = some dp → d.superVersion = dp.version →
    ∀ k, K k → d.options.find? k = (a.own k).onto (dp.options.find? k)

/-- The definitions are what the history says, as far as some kinds of entries go. -/
structure Tracks (K : AssetKind → Prop) (ds : List Definition) (h : History) : Prop where
  length : ds.length = h.ledger.length
  stands : ∀ cid d a, ds[cid]? = some d → h.ledger[cid]? = some a → Stands K ds h cid d a

variable {K : AssetKind → Prop} {ds : List Definition} {h h' : History} {cid : Cid}

namespace Tracks

theorem account (ht : Tracks K ds h) {d : Definition} (hd : ds[cid]? = some d) :
    ∃ a, h.ledger[cid]? = some a := by
  have hlt := (List.getElem?_eq_some_iff.1 hd).1
  exact ⟨_, List.getElem?_eq_getElem (ht.length ▸ hlt)⟩

theorem definition (ht : Tracks K ds h) (hlt : cid < h.ledger.length) :
    ∃ d, ds[cid]? = some d :=
  ⟨_, List.getElem?_eq_getElem (ht.length ▸ hlt)⟩

theorem start : Tracks K [] History.start :=
  ⟨rfl, fun _ _ _ hd => by cases hd⟩

theorem mono (ht : Tracks K ds h) {K' : AssetKind → Prop} (hK : ∀ k, K' k → K k) :
    Tracks K' ds h := by
  refine ⟨ht.length, fun cid d a hd ha => ?_⟩
  have hs := ht.stands cid d a hd ha
  exact
    { hs with
      root := fun hroot k hk => hs.root hroot k (hK k hk)
      caches := fun p hp k hk => hs.caches p hp k (hK k hk)
      merged := fun p dp hp hdp hversion k hk => hs.merged p dp hp hdp hversion k (hK k hk) }

/-- One definition is replaced by one of a later version. The others need only cache what the
history says now. -/
theorem replace (ht : Tracks K ds h) {d d' : Definition} (hd : ds[cid]? = some d)
    (hversion : d.version < d'.version) (hlength : h'.ledger.length = h.ledger.length)
    (hother : ∀ c, c ≠ cid → h'.ledger[c]? = h.ledger[c]?)
    (hcaches : ∀ c, c ≠ cid → ∀ dc a p, ds[c]? = some dc → h.ledger[c]? = some a →
      a.parent = some p → ∀ k, K k →
        Caches dc.options dc.sealedOptions dc.extendOptions (selfEntry (h'.ledger.name c) c k)
          (a.own k) (a.made k) (h'.ledger.shown c k) (h'.known c k))
    (hnew : ∀ a, h'.ledger[cid]? = some a → Stands K ds h' cid d' a) :
    Tracks K (ds.set cid d') h' := by
  have hlt := (List.getElem?_eq_some_iff.1 hd).1
  refine ⟨by rw [List.length_set, ht.length, hlength], fun c dc a hdc ha => ?_⟩
  by_cases heq : c = cid
  · subst heq
    rw [List.getElem?_set_self hlt] at hdc
    cases hdc
    have hs := hnew a ha
    have hparent {p : Cid} (hp : a.parent = some p) : (ds.set c d')[p]? = ds[p]? :=
      List.getElem?_set_ne (Nat.ne_of_gt (hs.parent_lt p hp))
    exact
      { hs with
        version_le := fun p dp hp hdp => hs.version_le p dp hp (hparent hp ▸ hdp)
        merged := fun p dp hp hdp => hs.merged p dp hp (hparent hp ▸ hdp) }
  · rw [List.getElem?_set_ne (Ne.symm heq)] at hdc
    rw [hother c heq] at ha
    have hs := ht.stands c dc a hdc ha
    -- The children of the one replaced were merged with an earlier version of it.
    have hparent {p : Cid} {dp : Definition} (hp : a.parent = some p)
        (hdp : (ds.set cid d')[p]? = some dp) :
        ds[p]? = some dp ∨ dc.superVersion < dp.version := by
      by_cases hpeq : p = cid
      · subst hpeq
        rw [List.getElem?_set_self hlt] at hdp
        cases hdp
        exact .inr (Nat.lt_of_le_of_lt (hs.version_le p d hp hd) hversion)
      · exact .inl (by rwa [List.getElem?_set_ne (Ne.symm hpeq)] at hdp)
    refine { hs with caches := fun p hp => hcaches c heq dc a p hdc ha hp, version_le := ?_, merged := ?_ }
    · intro p dp hp hdp
      rcases hparent hp hdp with hdp | hlater
      · exact hs.version_le p dp hp hdp
      · exact Nat.le_of_lt hlater
    · intro p dp hp hdp hsame
      rcases hparent hp hdp with hdp | hlater
      · exact hs.merged p dp hp hdp hsame
      · exact absurd hsame (Nat.ne_of_lt hlater)

/-- One definition is added. -/
theorem append (ht : Tracks K ds h) {d : Definition} {a : Account}
    (hledger : h'.ledger = h.ledger ++ [a])
    (hcaches : ∀ c dc ac p, ds[c]? = some dc → h.ledger[c]? = some ac → ac.parent = some p →
      ∀ k, K k →
        Caches dc.options dc.sealedOptions dc.extendOptions (selfEntry (h'.ledger.name c) c k)
          (ac.own k) (ac.made k) (h'.ledger.shown c k) (h'.known c k))
    (hnew : Stands K (ds ++ [d]) h' ds.length d a) : Tracks K (ds ++ [d]) h' := by
  refine ⟨by simp [hledger, ht.length], fun c dc ac hdc hac => ?_⟩
  rw [hledger] at hac
  by_cases hlt : c < ds.length
  · rw [List.getElem?_append_left hlt] at hdc
    rw [List.getElem?_append_left (ht.length ▸ hlt)] at hac
    have hs := ht.stands c dc ac hdc hac
    have hparent {p : Cid} (hp : ac.parent = some p) : (ds ++ [d])[p]? = ds[p]? :=
      List.getElem?_append_left (Nat.lt_trans (hs.parent_lt p hp) hlt)
    exact
      { hs with
        caches := fun p => hcaches c dc ac p hdc hac
        version_le := fun p dp hp hdp => hs.version_le p dp hp (hparent hp ▸ hdp)
        merged := fun p dp hp hdp => hs.merged p dp hp (hparent hp ▸ hdp) }
  · have hle := (List.getElem?_eq_some_iff.1 hdc).1
    rw [List.length_append, List.length_singleton] at hle
    obtain rfl : c = ds.length := Nat.le_antisymm (Nat.le_of_lt_succ hle) (Nat.not_lt.1 hlt)
    rw [List.getElem?_concat_length] at hdc
    rw [ht.length, List.getElem?_concat_length] at hac
    cases hdc
    cases hac
    exact hnew

end Tracks

/-! ## Resolving -/

/-- What resolving a definition comes to: it gives what the ledger says, which the definition and
its ancestors now hold, and no other definition changes. -/
structure Resolved (K : AssetKind → Prop) (h : History) (cid : Cid) (w : World)
    (r : ComponentOptions × World) : Prop where
  tracks : Tracks K r.2.definitions h
  sorted : r.1.Sorted
  shown : ∀ k, K k → r.1.find? k = h.ledger.shown cid k
  result : ∃ d, r.2.definitions[cid]? = some d ∧ d.options = r.1
  chain : ∀ c ∈ h.ledger.chain cid, ∀ d, r.2.definitions[c]? = some d →
    ∀ k, K k → d.options.find? k = h.ledger.shown c k
  elsewhere : ∀ c, c ∉ h.ledger.chain cid → r.2.definitions[c]? = w.definitions[c]?

theorem Resolved.later {p : Cid} {w : World} {r : ComponentOptions × World}
    (hr : Resolved K h p w r) (hlt : p < cid) : r.2.definitions[cid]? = w.definitions[cid]? :=
  hr.elsewhere cid fun hmem => absurd (Ledger.le_of_mem_chain hmem) (Nat.not_le.2 hlt)

theorem selfEntry_name (name : Option String) : selfEntry name cid .name = .empty :=
  rfl

section

variable {w : World}

theorem resolved_root (ht : Tracks K w.definitions h) {d : Definition} {a : Account}
    (hd : w.definitions[cid]? = some d) (ha : h.ledger[cid]? = some a) (hparent : a.parent = none) :
    Resolved K h cid w ((Run.resolveOptions cid).run w) := by
  have hs := ht.stands cid d a hd ha
  have hshown (k : AssetKind) (hk : K k) : d.options.find? k = h.ledger.shown cid k := by
    rw [Ledger.shown_root ha hparent]
    exact hs.root hparent k hk
  rw [resolve_root hd (hs.parent.trans hparent)]
  refine ⟨ht, hs.options_sorted, hshown, ⟨d, hd, rfl⟩, ?_, fun _ _ => rfl⟩
  rw [Ledger.chain_root ha hparent]
  intro c hc d' hd'
  cases List.mem_singleton.1 hc
  cases hd.symm.trans hd'
  exact hshown

/-- A definition is resolved with its ancestors once its parent is, and nothing but the definition
has changed since. -/
theorem Resolved.child {p : Cid} {r r' : ComponentOptions × World} (hr : Resolved K h p w r)
    {a : Account} (ha : h.ledger[cid]? = some a) (hparent : a.parent = some p) (hlt : p < cid)
    (htracks : Tracks K r'.2.definitions h) (hsorted : r'.1.Sorted)
    (hshown : ∀ k, K k → r'.1.find? k = h.ledger.shown cid k)
    (hself : ∃ d, r'.2.definitions[cid]? = some d ∧ d.options = r'.1)
    (hother : ∀ c, c ≠ cid → r'.2.definitions[c]? = r.2.definitions[c]?) :
    Resolved K h cid w r' := by
  refine ⟨htracks, hsorted, hshown, hself, ?_, ?_⟩
  · rw [Ledger.chain_child ha hparent hlt]
    intro c hc d hd
    by_cases heq : c = cid
    · subst heq
      obtain ⟨d', hd', hoptions⟩ := hself
      cases hd.symm.trans hd'
      rw [hoptions]
      exact hshown
    · rw [hother c heq] at hd
      exact hr.chain c ((List.mem_cons.1 hc).resolve_left heq) d hd
  · intro c hc
    rw [Ledger.chain_child ha hparent hlt, List.mem_cons, not_or] at hc
    rw [hother c hc.1]
    exact hr.elsewhere c hc.2

/-- A definition whose parent is resolved and has not moved on is as the ledger says. -/
theorem resolved_unmoved {p : Cid} {r : ComponentOptions × World} (hr : Resolved K h p w r)
    {d : Definition} {a : Account} (hd : r.2.definitions[cid]? = some d)
    (ha : h.ledger[cid]? = some a) (hparent : a.parent = some p)
    (hsame : d.superVersion = ((r.2.definitions[p]?).getD default).version) :
    Resolved K h cid w (d.options, r.2) := by
  have hs := hr.tracks.stands cid d a hd ha
  have hlt := hs.parent_lt p hparent
  obtain ⟨dp, hdp, hoptions⟩ := hr.result
  rw [hdp, Option.getD_some] at hsame
  refine hr.child ha hparent hlt hr.tracks hs.options_sorted ?_ ⟨d, hd, rfl⟩ fun _ _ => rfl
  intro k hk
  rw [hs.merged p dp hparent hdp hsame k hk, hoptions, hr.shown k hk,
    Ledger.shown_child ha hparent hlt]

/-- The name of a definition that is merged again is the one it shows. -/
theorem remerged_name (hK : K .name) {p : Cid} {r : ComponentOptions × World}
    (hr : Resolved K h p w r) {d : Definition} {a : Account} (hd : r.2.definitions[cid]? = some d)
    (ha : h.ledger[cid]? = some a) (hparent : a.parent = some p) :
    ((carryEdits d.options d.sealedOptions d.extendOptions).flat? .name).onto (r.1.find? .name) "" =
      h.ledger.name cid := by
  have hs := hr.tracks.stands cid d a hd ha
  have hbelow := Ledger.shown_child (k := .name) ha hparent (hs.parent_lt p hparent)
  have hmerged := (hs.caches p hparent .name hK).merged_eq hbelow
  rw [carried, selfEntry_name, Lookup.empty_onto, ← hr.shown .name hK] at hmerged
  exact congrFun hmerged ""

/-- A definition that shows what the ledger says after another merge stands for its account. -/
theorem Stands.remerged {p : Cid} {r : ComponentOptions × World} (hr : Resolved K h p w r)
    {d dp : Definition} {a : Account} (hs : Stands K r.2.definitions h cid d a)
    (ha : h.ledger[cid]? = some a) (hparent : a.parent = some p)
    (hdp : r.2.definitions[p]? = some dp) (hoptions : dp.options = r.1)
    {options : ComponentOptions} (hsorted : options.Sorted)
    (hshown : ∀ k, K k → options.find? k = h.ledger.shown cid k) (version : Nat)
    (superOptions : Option ComponentOptions) :
    Stands K r.2.definitions h cid
      { d with
        version := version, options := options, superVersion := dp.version
        superOptions := superOptions
        extendOptions := carryEdits d.options d.sealedOptions d.extendOptions } a := by
  refine ⟨hs.parent, hsorted, hs.sealed_sorted,
    allSorted_carryEdits hs.options_sorted hs.extend_sorted _, ?_, hs.parent_lt, ?_, ?_, ?_⟩
  · intro hroot
    rw [hparent] at hroot
    cases hroot
  · intro q hq k hk
    exact (hs.caches q hq k hk).remerged hs.sealed_sorted hsorted (hshown k hk)
  · intro q dq hq hdq
    cases hparent.symm.trans hq
    cases hdp.symm.trans hdq
    exact Nat.le_refl _
  · intro q dq hq hdq _ k hk
    cases hparent.symm.trans hq
    cases hdp.symm.trans hdq
    rw [hoptions, hr.shown k hk, ← Ledger.shown_child ha hparent (hs.parent_lt p hparent)]
    exact hshown k hk

/-- A definition that is merged again over its resolved parent is as the ledger says. -/
theorem resolved_moved (hK : K .name) {p : Cid} {r : ComponentOptions × World}
    (hr : Resolved K h p w r) {d : Definition} {a : Account} (hd : r.2.definitions[cid]? = some d)
    (ha : h.ledger[cid]? = some a) (hparent : a.parent = some p) :
    Resolved K h cid w ((Run.remerge cid d r.1
      ((r.2.definitions[p]?).getD default).version).run r.2) := by
  have hs := hr.tracks.stands cid d a hd ha
  have hlt := hs.parent_lt p hparent
  obtain ⟨dp, hdp, hoptions⟩ := hr.result
  rw [hdp, Option.getD_some]
  obtain ⟨hsorted, hfind, hset⟩ :=
    remerge_spec hd hs.options_sorted hs.extend_sorted hr.sorted dp.version
  generalize (Run.remerge cid d r.1 dp.version).run r.2 = r' at hsorted hfind hset ⊢
  -- What the merge lays over the parent is what the definition carries, its name included.
  have hname := remerged_name hK hr hd ha hparent
  have hshown (k : AssetKind) (hk : K k) : r'.1.find? k = h.ledger.shown cid k := by
    have hmerged := (hs.caches p hparent k hk).merged_eq (Ledger.shown_child ha hparent hlt)
    refine (hfind k).trans ?_
    rw [← hmerged, carried, Lookup.onto_assoc, ← hr.shown k hk]
    exact congrArg (fun name => (selfEntry name cid k).onto _) hname
  have hself := List.getElem?_set_self (a := { d with
    version := d.version + 1, options := r'.1, superVersion := dp.version
    superOptions := some r.1
    extendOptions := carryEdits d.options d.sealedOptions d.extendOptions })
    (List.getElem?_eq_some_iff.1 hd).1
  refine hr.child ha hparent hlt ?_ hsorted hshown ⟨_, hset ▸ hself, rfl⟩ ?_
  · rw [hset]
    refine hr.tracks.replace hd (Nat.lt_succ_self _) rfl (fun _ _ => rfl) ?_ ?_
    · intro c _ dc ac q hdc hac hq
      exact (hr.tracks.stands c dc ac hdc hac).caches q hq
    · intro a' ha'
      cases ha.symm.trans ha'
      exact hs.remerged hr ha hparent hdp hoptions hsorted hshown _ _
  · intro c hne
    rw [hset, List.getElem?_set_ne (Ne.symm hne)]

/-- Resolving gives what the ledger says, and leaves the definitions as the history says. -/
theorem resolve_tracks (hK : K .name) (ht : Tracks K w.definitions h)
    (hlt : cid < h.ledger.length) : Resolved K h cid w ((Run.resolveOptions cid).run w) := by
  -- A parent is defined before those that extend it, so the induction is on the definition.
  induction cid using Nat.strongRecOn with
  | ind cid ih =>
    obtain ⟨d, hd⟩ := ht.definition hlt
    obtain ⟨a, ha⟩ := ht.account hd
    have hs := ht.stands cid d a hd ha
    cases hparent : a.parent with
    | none => exact resolved_root ht hd ha hparent
    | some p =>
      have hplt := hs.parent_lt p hparent
      have hr := ih p hplt (Nat.lt_trans hplt hlt)
      -- Resolving the parent leaves the definition itself as it is.
      have hd' := (hr.later hplt).trans hd
      rw [resolve_child hd (hs.parent.trans hparent) hplt]
      dsimp only
      split
      · rename_i hsame
        exact resolved_unmoved hr hd' ha hparent hsame.symm
      · exact resolved_moved hK hr hd' ha hparent

/-! ## Steps -/

/-- A base definition has nothing. -/
theorem Tracks.base (ht : Tracks K w.definitions h) :
    Tracks K (Run.defineBase.run w).2.definitions (h.step .base) := by
  rw [defineBase_spec]
  refine ht.append rfl ?_ ?_
  · intro c d a p hd ha hp k hk
    have hlt := (List.getElem?_eq_some_iff.1 ha).1
    show Caches _ _ _ (selfEntry ((h.ledger ++ [_]).name c) c k) _ _ ((h.ledger ++ [_]).shown c k) _
    rw [Ledger.name_append hlt, Ledger.shown_append hlt]
    exact ((ht.stands c d a hd ha).caches p hp k hk).weaken fun _ _ hv => .inr hv
  · refine ⟨rfl, sorted_empty, sorted_empty, allSorted_empty, fun _ k _ => find?_empty k,
      ?_, ?_, ?_, ?_⟩
    · exact fun p hp => nomatch hp
    · exact fun p hp => nomatch hp
    · exact fun p _ hp => nomatch hp
    · exact fun p _ hp => nomatch hp

/-- While a definition is extended, the others cache the same. Nothing older is known any more of
those that were resolved for it. -/
theorem Resolved.caches_extend {p : Cid} {r : ComponentOptions × World} (hr : Resolved K h p w r)
    (options : ComponentOptions) {d : Definition} {a : Account} {q : Cid}
    (hd : r.2.definitions[cid]? = some d) (ha : h.ledger[cid]? = some a)
    (hparent : a.parent = some q) {k : AssetKind} (hk : K k) :
    Caches d.options d.sealedOptions d.extendOptions
      (selfEntry ((h.step (.extend p options)).ledger.name cid) cid k) (a.own k) (a.made k)
      ((h.step (.extend p options)).ledger.shown cid k)
      ((h.step (.extend p options)).known cid k) := by
  have hlt := (List.getElem?_eq_some_iff.1 ha).1
  have hcaches := (hr.tracks.stands cid d a hd ha).caches q hparent k hk
  let ledger := h.ledger ++ [h.ledger.extension p options]
  show Caches _ _ _ (selfEntry (ledger.name cid) cid k) _ _ (ledger.shown cid k)
    fun key v => ledger.shown cid k key = some v ∨ cid ∉ h.ledger.chain p ∧ h.known cid k key v
  rw [Ledger.name_append hlt, Ledger.shown_append hlt]
  by_cases hmem : cid ∈ h.ledger.chain p
  · exact (hcaches.current (hr.chain cid hmem d hd k hk)).weaken fun _ _ hv => .inl hv
  · exact hcaches.weaken fun _ _ hv => .inr ⟨hmem, hv⟩

/-- A new definition that shows what the ledger says caches it. -/
theorem caches_extension {p : Cid} {options merged : ComponentOptions} (hlt : p < h.ledger.length)
    (hname : options.flat? .name "" = options.name) {k : AssetKind}
    (hmade : merged.find? k = (h.ledger.extension p options).made k) :
    Caches merged merged options
      (selfEntry ((h.step (.extend p options)).ledger.name h.ledger.length) h.ledger.length k)
      ((h.ledger.extension p options).own k) ((h.ledger.extension p options).made k)
      ((h.step (.extend p options)).ledger.shown h.ledger.length k)
      ((h.step (.extend p options)).known h.ledger.length k) := by
  let ledger := h.ledger ++ [h.ledger.extension p options]
  have hshown : ledger.shown h.ledger.length k = merged.find? k :=
    (Ledger.shown_extension options hlt).trans hmade.symm
  show Caches merged merged options
    (selfEntry (ledger.name h.ledger.length) h.ledger.length k) _ _
    (ledger.shown h.ledger.length k) _
  rw [Ledger.name_extension hlt hname, hshown, ← hmade]
  exact (Caches.sealed _ _ hmade).weaken fun key v hv => .inl ((congrFun hshown key).trans hv)

/-- A definition that extends another is tracked. -/
theorem Tracks.extend (hK : K .name) (ht : Tracks K w.definitions h) {p : Cid}
    {options : ComponentOptions} (hlt : p < h.ledger.length) (hoptions : options.AllSorted)
    (hname : options.flat? .name "" = options.name) :
    Tracks K ((Run.extendDefinition p options).run w).2.definitions (h.step (.extend p options)) := by
  have hr := resolve_tracks hK ht hlt
  obtain ⟨merged, hsorted, hfind, hset⟩ := extendDefinition_spec (w := w) hoptions hr.sorted
  rw [hset]
  generalize (Run.resolveOptions p).run w = r at hr hfind
  obtain ⟨dp, hdp, hdpoptions⟩ := hr.result
  rw [hdp, Option.getD_some]
  have hparent : r.1.name = h.ledger.name p :=
    (find?_name r.1).symm.trans (congrFun (hr.shown .name hK) "")
  have hmade (k : AssetKind) (hk : K k) :
      merged.find? k = (h.ledger.extension p options).made k := by
    rw [hfind, hparent, hr.tracks.length, ← Lookup.onto_assoc, hr.shown k hk]
    rfl
  refine hr.tracks.append rfl ?_ ?_
  · intro c d a q hd ha hq k hk
    exact hr.caches_extend options hd ha hq hk
  · -- The parent is still the one that was just resolved.
    have hkept {dq : Definition}
        (hdq : (r.2.definitions ++ [(⟨some p, 0, merged, dp.version, some r.1, options, merged⟩ :
          Definition)])[p]? = some dq) : dp = dq := by
      rw [List.getElem?_append_left (hr.tracks.length ▸ hlt), hdp] at hdq
      exact Option.some.inj hdq
    refine ⟨rfl, hsorted, hsorted, hoptions, ?_, ?_, ?_, ?_, ?_⟩
    · exact fun hroot => nomatch hroot
    · rintro q ⟨⟩
      exact hr.tracks.length ▸ hlt
    · intro q _ k hk
      rw [hr.tracks.length]
      exact caches_extension hlt hname (hmade k hk)
    · rintro q dq ⟨⟩ hdq
      cases hkept hdq
      exact Nat.le_refl _
    · rintro q dq ⟨⟩ hdq _ k hk
      cases hkept hdq
      rw [hmade k hk, hdpoptions, hr.shown k hk]
      rfl

theorem Edit.Valid.respects_all {ℓ : Ledger} {e : Edit} (hvalid : e.Valid ℓ cid) (k : AssetKind)
    (key : String) (v u : k.Value) (hv : selfEntry (ℓ.name cid) cid k key = some v)
    (hu : e.table k key = some u) : u = v := by
  cases k with
  | component => exact hvalid.respects key v u hv hu
  | _ => cases hv

/-- Definitions that a change does not concern cache the same, if it binds nothing anew that they
cannot take over. -/
theorem Tracks.elsewhere (ht : Tracks K w.definitions h) {e : Edit} (hvalid : e.Valid h.ledger cid)
    (hkept : ∀ k, K k → e.Kept h cid k) {c : Cid} (hne : c ≠ cid) {d : Definition} {a : Account}
    {p : Cid} (hd : w.definitions[c]? = some d) (ha : h.ledger[c]? = some a)
    (hparent : a.parent = some p) {k : AssetKind} (hk : K k) :
    Caches d.options d.sealedOptions d.extendOptions
      (selfEntry ((h.step (.edit cid e)).ledger.name c) c k) (a.own k) (a.made k)
      ((h.step (.edit cid e)).ledger.shown c k) ((h.step (.edit cid e)).known c k) := by
  have hs := ht.stands c d a hd ha
  have hown : (a.own k).Within ((h.ledger.register cid e.table).shown c k) :=
    Ledger.own_within_shown (ha ▸ Ledger.getElem?_register_of_ne hne)
  have hcaches := (hs.caches p hparent k hk).elsewhere hown Ledger.keysIn_register
    fun hdiffers => (hkept k hk).inherited c a p hne ha hparent hdiffers
  show Caches _ _ _ (selfEntry ((h.ledger.register cid e.table).name c) c k) _ _ _ _
  rw [Ledger.name_register hvalid.nameless]
  exact hcaches.weaken fun key v hknown => hknown.imp_right fun hv => ⟨fun heq => absurd heq hne, hv⟩

/-- The definition that entries are registered with caches them. -/
theorem Tracks.registered (ht : Tracks K w.definitions h) {e : Edit}
    (hvalid : e.Valid h.ledger cid) (hkept : ∀ k, K k → e.Kept h cid k) {d : Definition}
    {a : Account} {p : Cid} (hd : w.definitions[cid]? = some d) (ha : h.ledger[cid]? = some a)
    (hparent : a.parent = some p) {options : ComponentOptions} (hoptions : options.Sorted)
    (hfind : ∀ k, options.find? k = (e.table k).onto (d.options.find? k)) {k : AssetKind}
    (hk : K k) :
    Caches options d.sealedOptions d.extendOptions
      (selfEntry ((h.step (.edit cid e)).ledger.name cid) cid k) ((e.table k).onto (a.own k))
      (a.made k) ((h.step (.edit cid e)).ledger.shown cid k)
      ((h.step (.edit cid e)).known cid k) := by
  have hs := ht.stands cid d a hd ha
  have hcaches := hs.caches p hparent k hk
  show Caches _ _ _ (selfEntry ((h.ledger.register cid e.table).name cid) cid k) _ _
    ((h.ledger.register cid e.table).shown cid k)
    fun key v => (h.ledger.register cid e.table).shown cid k key = some v ∨
      (cid = cid → e.table k key = none) ∧ h.known cid k key v
  rw [Ledger.name_register hvalid.nameless, Ledger.shown_register_self ha]
  have hregistered : Caches options d.sealedOptions d.extendOptions
      (selfEntry (h.ledger.name cid) cid k) ((e.table k).onto (a.own k)) (a.made k)
      ((e.table k).onto (h.ledger.shown cid k))
      fun key v => (e.table k).onto (h.ledger.shown cid k) key = some v ∨
        e.table k key = none ∧ h.known cid k key v := by
    by_cases hwithin : (e.table k).Within (a.own k)
    · exact hcaches.registered_within hs.options_sorted hoptions (hfind k) hwithin
    · exact hcaches.registered (hfind k) (hvalid.respects_all k)
        (hvalid.differs a p k ha hparent hwithin) ((hkept k hk).held a p ha hparent hwithin)
  exact hregistered.weaken fun _ _ hv => hv.imp_right fun hv => ⟨fun _ => hv.1, hv.2⟩

/-- A change touches no other definition. -/
theorem Tracks.edit_elsewhere (ht : Tracks K w.definitions h) {c : Cid} {e : Edit}
    (hlt : c < h.ledger.length) (hproper : e.Proper) (hne : cid ≠ c) :
    ((e.run c).run w).2.definitions[cid]? = w.definitions[cid]? := by
  obtain ⟨d, hd⟩ := ht.definition hlt
  obtain ⟨a, ha⟩ := ht.account hd
  obtain ⟨options, -, -, hset⟩ := edit_spec hproper hd (ht.stands c d a hd ha).options_sorted
  rw [hset, List.getElem?_set_ne (Ne.symm hne)]

theorem Tracks.edit_self (ht : Tracks K w.definitions h) {e : Edit} (hproper : e.Proper)
    {d : Definition} (hd : w.definitions[cid]? = some d) :
    ∃ options : ComponentOptions,
      (∀ k, options.find? k = (e.table k).onto (d.options.find? k)) ∧
      ((e.run cid).run w).2.definitions[cid]? = some (d.withOptions options) := by
  obtain ⟨a, ha⟩ := ht.account hd
  obtain ⟨options, -, hfind, hset⟩ := edit_spec hproper hd (ht.stands cid d a hd ha).options_sorted
  refine ⟨options, hfind, ?_⟩
  rw [hset, List.getElem?_set_self (List.getElem?_eq_some_iff.1 hd).1]

/-- A change that keeps what is inherited is tracked. -/
theorem Tracks.edit (ht : Tracks K w.definitions h) {e : Edit} (hlt : cid < h.ledger.length)
    (hvalid : e.Valid h.ledger cid) (hkept : ∀ k, K k → e.Kept h cid k) :
    Tracks K ((e.run cid).run w).2.definitions (h.step (.edit cid e)) := by
  obtain ⟨d, hd⟩ := ht.definition hlt
  obtain ⟨a, ha⟩ := ht.account hd
  have hs := ht.stands cid d a hd ha
  obtain ⟨options, hoptions, hfind, hset⟩ := edit_spec hvalid.proper hd hs.options_sorted
  rw [hset]
  refine ht.replace hd (Nat.lt_succ_self _) Ledger.length_register
    (fun c hne => Ledger.getElem?_register_of_ne hne) ?_ ?_
  · intro c hne dc ac p hdc hac hp k hk
    exact ht.elsewhere hvalid hkept hne hdc hac hp hk
  · intro a' ha'
    cases (Ledger.getElem?_register_self ha).symm.trans ha'
    refine ⟨hs.parent, hoptions, hs.sealed_sorted, hs.extend_sorted, ?_, hs.parent_lt, ?_,
      hs.version_le, ?_⟩
    · intro hroot k hk
      show options.find? k = (e.table k).onto (a.own k)
      rw [hfind, hs.root hroot k hk]
    · intro p hp k hk
      exact ht.registered hvalid hkept hd ha hp hoptions hfind hk
    · intro p dp hp hdp hversion k hk
      show options.find? k = ((e.table k).onto (a.own k)).onto (dp.options.find? k)
      rw [hfind, hs.merged p dp hp hdp hversion k hk, Lookup.onto_assoc]

/-- Every valid operation that keeps what is inherited is tracked. -/
theorem Tracks.step (hK : K .name) (ht : Tracks K w.definitions h) {op : Op}
    (hvalid : op.Valid h.ledger) (hkept : ∀ k, K k → op.Kept h k) :
    Tracks K (op.run.run w).2.definitions (h.step op) := by
  cases op with
  | base => exact ht.base
  | extend p options => exact ht.extend hK hvalid.1 hvalid.2.1 hvalid.2.2
  | edit cid e => exact ht.edit hvalid.1 hvalid.2 hkept
  | resolve cid =>
    show Tracks K ((Run.resolveOptions cid).run w).2.definitions h
    by_cases hlt : cid < h.ledger.length
    · exact (resolve_tracks hK ht hlt).tracks
    · rw [resolve_missing (List.getElem?_eq_none (ht.length ▸ Nat.not_lt.1 hlt))]
      exact ht

end

end ViewTree
