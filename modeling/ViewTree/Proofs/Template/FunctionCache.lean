import Mathlib.Data.List.Nodup
import ViewTree.Proofs.Template.Receiving
import ViewTree.Template.Defaults
/-!
# Functions compiled once

A compiler keeps the functions it has compiled, under one text made of the delimiters and the
template. Over any calls whose overrides differ at most in the delimiters, `AsUncached` says that
this cannot be seen: every call gives what compiling gives, and two calls share their functions if
and only if they have the same delimiters in effect and the same template.

The text does not keep delimiters and template apart, so this is not always so. `asUncached_iff`
says when it is: no two calls may have one key and different pairs, or one pair and two keys.
-/

namespace ViewTree.Template

/-- The functions of a compiled template. -/
def CompiledTemplate.functions (t : CompiledTemplate) : CompiledFunctions :=
  ⟨t.render, t.staticRenderFns⟩

/-- A call that compiles a template to functions. -/
structure FunctionsCall where
  template : String
  overrides : Option Overrides

/-- A call that gives delimiters and nothing else. -/
def FunctionsCall.delimited (opening closing template : String) : FunctionsCall :=
  ⟨template, some { Overrides.none with delimiters := some (opening, closing) }⟩

/-- The calls override the same settings in the same way, but for the delimiters. -/
def Alike (o : Overrides) (calls : List FunctionsCall) : Prop :=
  ∀ call ∈ calls, call.overrides.getD .none =
    { o with delimiters := (call.overrides.getD .none).delimiters }

namespace Compiler

/-- The calls one after the other, each with what it gives. -/
def answers (c : Compiler) : List FunctionsCall → List (FunctionsCall × FunctionsResult)
  | [] => []
  | call :: rest =>
    (call, (c.compileToFunctions call.template call.overrides).1) ::
      (c.compileToFunctions call.template call.overrides).2.answers rest

/-- The compiler when all calls are made. -/
def after (c : Compiler) : List FunctionsCall → Compiler
  | [] => c
  | call :: rest => (c.compileToFunctions call.template call.overrides).2.after rest

/-- What the functions of a call are kept under. -/
def key (c : Compiler) (call : FunctionsCall) : String :=
  cacheKey (c.settings call.overrides) call.template

/-- The delimiters in effect for a call, and its template. -/
def effective (c : Compiler) (call : FunctionsCall) : (String × String) × String :=
  ((c.settings call.overrides).delimiterPair, call.template)

/-- What compiling gives for a call. -/
def uncached (c : Compiler) (call : FunctionsCall) : CompiledFunctions :=
  (c.compile call.template call.overrides).result.template.functions

/-- What is compiled when nothing is kept for a call: nobody receives the diagnostics. -/
def compiled (c : Compiler) (call : FunctionsCall) : CompiledFunctions :=
  (c.stage ((c.settings call.overrides).withReceiver false) call.template).1.functions

/-- Nobody can tell that the compiler keeps functions: every call gives what compiling gives, and
calls share their functions if and only if delimiters and template are the same. -/
structure AsUncached (c : Compiler) (calls : List FunctionsCall) : Prop where
  functions : ∀ a ∈ c.answers calls, a.2.functions = c.uncached a.1
  shared : ∀ a ∈ c.answers calls, ∀ b ∈ c.answers calls,
    a.2.entry = b.2.entry ↔ c.effective a.1 = c.effective b.1

/-- Keys tell the calls apart that have different delimiters or templates, and no others. -/
def Distinguished (c : Compiler) (calls : List FunctionsCall) : Prop :=
  ∀ a ∈ calls, ∀ b ∈ calls, c.key a = c.key b ↔ c.effective a = c.effective b

/-- The stages give the calls' functions whether or not somebody receives the diagnostics. -/
def Unaware (c : Compiler) (calls : List FunctionsCall) : Prop :=
  ∀ call ∈ calls, c.compiled call = c.uncached call

/-! ## One call -/

/-- Compilers with the same settings and stages. -/
structure SameBase (c c' : Compiler) : Prop where
  base : c'.base = c.base
  stage : c'.stage = c.stage

/-- What one call does: the functions are in the cache at the entry it gives, under its key, and
are in there before or compiled for this call. -/
structure Answered (c : Compiler) (call : FunctionsCall) (r : FunctionsResult × Compiler) :
    Prop where
  same : SameBase c r.2
  kept : c.cache <+: r.2.cache
  keys : (r.2.cache.map (·.1)).Nodup
  entry : r.2.cache[r.1.entry]? = some (c.key call, r.1.functions)
  origin : ∀ e ∈ r.2.cache, e ∈ c.cache ∨ e = (c.key call, c.compiled call)

theorem compileToFunctions_answered (c : Compiler) (call : FunctionsCall)
    (hkeys : (c.cache.map (·.1)).Nodup) :
    c.Answered call (c.compileToFunctions call.template call.overrides) := by
  cases hfound : c.cache.findIdx? (·.1 == c.key call) with
  | some entry =>
    obtain ⟨hlt, hkey, -⟩ := List.findIdx?_eq_some_iff_getElem.1 hfound
    have hat : c.cache[entry]? = some c.cache[entry] := List.getElem?_eq_getElem hlt
    have hrun : c.compileToFunctions call.template call.overrides =
        (⟨c.cache[entry].2, entry, [], []⟩, c) := by
      rw [key] at hfound
      simp only [compileToFunctions, hfound, hat, Option.map_some, Option.getD_some]
    rw [hrun]
    refine ⟨⟨rfl, rfl⟩, List.prefix_rfl, hkeys, ?_, fun e he => .inl he⟩
    rw [hat, ← eq_of_beq hkey]
  | none =>
    have hnew : c.key call ∉ c.cache.map (·.1) := by
      intro hmem
      obtain ⟨e, he, hekey⟩ := List.mem_map.1 hmem
      have hne := List.findIdx?_eq_none_iff.1 hfound e he
      simp [hekey] at hne
    have hcache : (c.compileToFunctions call.template call.overrides).2 =
        { c with cache := c.cache ++ [(c.key call, c.compiled call)] } := by
      rw [key] at hfound
      simp only [compileToFunctions, hfound]
      rfl
    have hentry : (c.compileToFunctions call.template call.overrides).1.entry =
        c.cache.length := by
      rw [key] at hfound
      simp only [compileToFunctions, hfound]
    have hfunctions : (c.compileToFunctions call.template call.overrides).1.functions =
        c.compiled call := by
      rw [key] at hfound
      simp only [compileToFunctions, hfound]
      rfl
    constructor
    case same => rw [hcache]; exact ⟨rfl, rfl⟩
    case kept => rw [hcache]; exact List.prefix_append _ _
    case keys =>
      rw [hcache]
      simp only [List.map_append, List.map_cons, List.map_nil]
      exact List.nodup_append.2 ⟨hkeys, List.nodup_singleton _, fun k hk k' hk' heq =>
        hnew (by rw [← List.mem_singleton.1 hk', ← heq]; exact hk)⟩
    case entry => rw [hcache, hentry, hfunctions, List.getElem?_concat_length]
    case origin =>
      intro e he
      rw [hcache] at he
      simpa [List.mem_append] using he

/-! ## All calls -/

namespace SameBase

variable {c c' : Compiler} (h : SameBase c c')

include h

theorem key_eq (call : FunctionsCall) : c'.key call = c.key call := by
  simp only [key, settings, h.base]

theorem compiled_eq (call : FunctionsCall) : c'.compiled call = c.compiled call := by
  simp only [compiled, settings, h.base, h.stage]

end SameBase

/-- What a run of calls leaves in the cache, and where its answers are. -/
structure Kept (c : Compiler) (calls : List FunctionsCall) : Prop where
  kept : c.cache <+: (c.after calls).cache
  keys : ((c.after calls).cache.map (·.1)).Nodup
  entries : ∀ a ∈ c.answers calls,
    (c.after calls).cache[a.2.entry]? = some (c.key a.1, a.2.functions)
  origin : ∀ e ∈ (c.after calls).cache,
    e ∈ c.cache ∨ ∃ call ∈ calls, e = (c.key call, c.compiled call)

theorem kept_run (calls : List FunctionsCall) : ∀ c : Compiler, (c.cache.map (·.1)).Nodup →
    c.Kept calls := by
  induction calls with
  | nil =>
    intro c hkeys
    exact ⟨List.prefix_rfl, hkeys, fun _ ha => absurd ha List.not_mem_nil, fun e he => .inl he⟩
  | cons call rest ih =>
    intro c hkeys
    have hcall := compileToFunctions_answered c call hkeys
    have hrest := ih _ hcall.keys
    constructor
    case kept => exact hcall.kept.trans hrest.kept
    case keys => exact hrest.keys
    case entries =>
      intro a ha
      rcases List.mem_cons.1 ha with rfl | ha
      · obtain ⟨hlt, hat⟩ := List.getElem?_eq_some_iff.1 hcall.entry
        exact (List.prefix_iff_getElem?.1 hrest.kept _ hlt).trans (congrArg some hat)
      · rw [← hcall.same.key_eq]
        exact hrest.entries a ha
    case origin =>
      intro e he
      rcases hrest.origin e he with he | ⟨call', hcall', rfl⟩
      · rcases hcall.origin e he with he | rfl
        · exact .inl he
        · exact .inr ⟨call, List.mem_cons_self, rfl⟩
      · refine .inr ⟨call', List.mem_cons_of_mem call hcall', ?_⟩
        rw [hcall.same.key_eq, hcall.same.compiled_eq]

theorem map_fst_answers (calls : List FunctionsCall) :
    ∀ c : Compiler, (c.answers calls).map (·.1) = calls := by
  induction calls with
  | nil => exact fun _ => rfl
  | cons call rest ih => exact fun c => congrArg (call :: ·) (ih _)

theorem mem_answers {c : Compiler} {calls : List FunctionsCall} {call : FunctionsCall} :
    call ∈ calls ↔ ∃ r, (call, r) ∈ c.answers calls := by
  constructor
  · intro h
    rw [← map_fst_answers calls c] at h
    obtain ⟨⟨_, r⟩, hr, rfl⟩ := List.mem_map.1 h
    exact ⟨r, hr⟩
  · rintro ⟨r, hr⟩
    rw [← map_fst_answers calls c]
    exact List.mem_map_of_mem hr

namespace Kept

variable {c : Compiler} {calls : List FunctionsCall} (h : c.Kept calls)

include h

/-- Calls share their functions if and only if they have the same key. -/
theorem entry_eq_iff {a b : FunctionsCall × FunctionsResult} (ha : a ∈ c.answers calls)
    (hb : b ∈ c.answers calls) : a.2.entry = b.2.entry ↔ c.key a.1 = c.key b.1 := by
  have hata := h.entries a ha
  have hatb := h.entries b hb
  constructor
  · intro heq
    rw [heq, hatb] at hata
    exact (congrArg Prod.fst (Option.some.inj hata)).symm
  · intro heq
    have hlt : a.2.entry < ((c.after calls).cache.map (·.1)).length := by
      rw [List.length_map]
      exact (List.getElem?_eq_some_iff.1 hata).1
    refine (List.getElem?_inj hlt h.keys).1 ?_
    rw [List.getElem?_map, List.getElem?_map, hata, hatb]
    exact congrArg some heq

/-- A new compiler gives the functions that were compiled for some call with the same key. -/
theorem functions_eq (hnew : c.cache = []) {a : FunctionsCall × FunctionsResult}
    (ha : a ∈ c.answers calls) :
    ∃ call ∈ calls, c.key call = c.key a.1 ∧ a.2.functions = c.compiled call := by
  rcases h.origin _ (List.mem_of_getElem? (h.entries a ha)) with hmem | ⟨call, hcall, heq⟩
  · rw [hnew] at hmem
    exact absurd hmem List.not_mem_nil
  · obtain ⟨hkey, hfunctions⟩ := Prod.mk.inj heq
    exact ⟨call, hcall, hkey.symm, hfunctions⟩

end Kept

/-! ## Calls with the same delimiters -/

theorem settings_getD (c : Compiler) (o : Option Overrides) :
    c.settings o = c.base.override (o.getD .none) := by
  cases o with
  | some o => rfl
  | none =>
    have hdirectives : c.base.directives.overlay [] = c.base.directives := rfl
    simp [settings, Settings.override, Overrides.none, hdirectives]

theorem settings_alike {o : Overrides} {calls : List FunctionsCall} (halike : Alike o calls)
    (c : Compiler) {call : FunctionsCall} (hcall : call ∈ calls) :
    c.settings call.overrides =
      { c.base.override o with delimiters := (c.settings call.overrides).delimiters } := by
  rw [settings_getD, halike call hcall]
  rfl

theorem delimiters_eq {s s' : Settings} {template : String}
    (hkey : cacheKey s template = cacheKey s' template)
    (hpair : s.delimiterPair = s'.delimiterPair) : s.delimiters = s'.delimiters := by
  have hlonger (opening closing : String) : opening ++ "," ++ closing ++ template ≠ template := by
    intro h
    have hlength := congrArg String.length h
    simp only [String.length_append] at hlength
    have hcomma : ",".length = 1 := rfl
    omega
  unfold cacheKey at hkey
  unfold Settings.delimiterPair at hpair
  cases hs : s.delimiters with
  | none =>
    cases hs' : s'.delimiters with
    | none => rfl
    | some p => simp only [hs, hs'] at hkey; exact absurd hkey.symm (hlonger p.1 p.2)
  | some p =>
    cases hs' : s'.delimiters with
    | none => simp only [hs, hs'] at hkey; exact absurd hkey (hlonger p.1 p.2)
    | some q => simpa [hs, hs'] using hpair

/-- Alike calls with one key and the same delimiters and template in effect compile to the same
functions. -/
theorem compiled_eq {c : Compiler} {o : Overrides} {calls : List FunctionsCall}
    (halike : Alike o calls) {a b : FunctionsCall} (ha : a ∈ calls) (hb : b ∈ calls)
    (hkey : c.key a = c.key b) (heffective : c.effective a = c.effective b) :
    c.compiled a = c.compiled b := by
  obtain ⟨hpair, htemplate⟩ := Prod.mk.inj heffective
  rw [key, key, htemplate] at hkey
  have hsettings : c.settings a.overrides = c.settings b.overrides := by
    rw [settings_alike halike c ha, settings_alike halike c hb, delimiters_eq hkey hpair]
  rw [compiled, compiled, hsettings, htemplate]

/-! ## Keys that can be read back -/

/-- Openings without a comma, and closings of one length, can be read back from the key. -/
theorem cacheKey_inj {s s' : Settings} {p p' : String × String} {template template' : String}
    (hs : s.delimiters = some p) (hs' : s'.delimiters = some p')
    (hopening : ',' ∉ p.1.toList) (hopening' : ',' ∉ p'.1.toList)
    (hclosing : p.2.length = p'.2.length)
    (hkey : cacheKey s template = cacheKey s' template') : p = p' ∧ template = template' := by
  have hbefore (l rest : List Char) (h : ',' ∉ l) :
      (l ++ ',' :: rest).takeWhile (· != ',') = l := by
    rw [List.takeWhile_append_of_pos fun c hc => bne_iff_ne.2 (ne_of_mem_of_not_mem hc h),
      List.takeWhile_cons_of_neg (by simp), List.append_nil]
  have hchars : p.1.toList ++ ',' :: (p.2.toList ++ template.toList) =
      p'.1.toList ++ ',' :: (p'.2.toList ++ template'.toList) := by
    simpa [cacheKey, hs, hs'] using congrArg String.toList hkey
  have hfirst : p.1.toList = p'.1.toList := by
    rw [← hbefore p.1.toList _ hopening, hchars, hbefore p'.1.toList _ hopening']
  rw [hfirst] at hchars
  have hrest := List.append_inj (List.cons.inj (List.append_cancel_left hchars)).2
    (by rwa [String.length_toList, String.length_toList])
  exact ⟨Prod.ext (String.toList_inj.1 hfirst) (String.toList_inj.1 hrest.1),
    String.toList_inj.1 hrest.2⟩

/-- Calls that all give delimiters, the openings without a comma and the closings of one length,
are distinguished. -/
theorem distinguished_of_given {c : Compiler} {calls : List FunctionsCall} {n : Nat}
    (h : ∀ call ∈ calls, ∃ p, (c.settings call.overrides).delimiters = some p ∧
      ',' ∉ p.1.toList ∧ p.2.length = n) : c.Distinguished calls := by
  intro a ha b hb
  obtain ⟨p, hp, hopening, hclosing⟩ := h a ha
  obtain ⟨q, hq, hopening', hclosing'⟩ := h b hb
  constructor
  · intro hkey
    obtain ⟨hpair, htemplate⟩ := cacheKey_inj hp hq hopening hopening'
      (hclosing.trans hclosing'.symm) hkey
    simp only [effective, Settings.delimiterPair, hp, hq, hpair, htemplate]
  · intro heffective
    obtain ⟨hpair, htemplate⟩ := Prod.mk.inj heffective
    simp only [Settings.delimiterPair, hp, hq, Option.getD_some] at hpair
    simp only [key, cacheKey, hp, hq, hpair, htemplate]

/-! ## The cache is not seen -/

theorem AsUncached.distinguished {c : Compiler} {calls : List FunctionsCall} (h : c.Kept calls)
    (huncached : c.AsUncached calls) : c.Distinguished calls := by
  intro a ha b hb
  obtain ⟨ra, ha⟩ := mem_answers.1 ha
  obtain ⟨rb, hb⟩ := mem_answers.1 hb
  exact (h.entry_eq_iff ha hb).symm.trans (huncached.shared _ ha _ hb)

/-- Calls that their keys tell apart give what was compiled for themselves. -/
theorem functions_eq_compiled {c : Compiler} (hnew : c.cache = []) {o : Overrides}
    {calls : List FunctionsCall} (halike : Alike o calls) (hkept : c.Kept calls)
    (h : c.Distinguished calls) {a : FunctionsCall × FunctionsResult} (ha : a ∈ c.answers calls) :
    a.2.functions = c.compiled a.1 := by
  obtain ⟨call, hcall, hkey, hfunctions⟩ := hkept.functions_eq hnew ha
  have hacall : a.1 ∈ calls := mem_answers.2 ⟨a.2, ha⟩
  rw [hfunctions]
  exact compiled_eq halike hcall hacall hkey ((h _ hcall _ hacall).1 hkey)

theorem unaware_compileTemplate (base : Settings) (calls : List FunctionsCall) :
    (Compiler.new base compileTemplate).Unaware calls := by
  intro call _
  show (compileTemplate _ _).1.functions = (compileTemplate _ _).1.functions
  rw [compileTemplate_withReceiver]

end Compiler

section

variable (base : Settings) (stage : Stage)

open Compiler

/-- A new compiler behaves as if it kept nothing, over calls that override the same but for the
delimiters, if and only if its keys distinguish the calls and its stages do not depend on who
receives the diagnostics. -/
theorem asUncached_iff {o : Overrides} {calls : List FunctionsCall} (halike : Alike o calls) :
    (Compiler.new base stage).AsUncached calls ↔
      (Compiler.new base stage).Distinguished calls ∧
        (Compiler.new base stage).Unaware calls := by
  have hkept := kept_run calls (Compiler.new base stage) List.nodup_nil
  constructor
  · intro h
    have hdistinguished := h.distinguished hkept
    refine ⟨hdistinguished, fun call hcall => ?_⟩
    obtain ⟨r, hr⟩ := mem_answers.1 hcall
    exact (functions_eq_compiled rfl halike hkept hdistinguished hr).symm.trans (h.functions _ hr)
  · rintro ⟨hdistinguished, hunaware⟩
    constructor
    case functions =>
      intro a ha
      rw [functions_eq_compiled rfl halike hkept hdistinguished ha]
      exact hunaware a.1 (mem_answers.2 ⟨a.2, ha⟩)
    case shared =>
      intro a ha b hb
      rw [hkept.entry_eq_iff ha hb]
      exact hdistinguished _ (mem_answers.2 ⟨a.2, ha⟩) _ (mem_answers.2 ⟨b.2, hb⟩)

theorem asUncached_comma_free :
    Alike .none [.delimited "[[" "]]" "<p>[[a]]</p>", .delimited "(*" "*)" "<p>[[a]]</p>",
        .delimited "[[" "]]" "<p>[[a]]</p>"] ∧
      (Compiler.new .base compileTemplate).AsUncached
        [.delimited "[[" "]]" "<p>[[a]]</p>", .delimited "(*" "*)" "<p>[[a]]</p>",
          .delimited "[[" "]]" "<p>[[a]]</p>"] := by
  have halike : Alike .none [.delimited "[[" "]]" "<p>[[a]]</p>",
      .delimited "(*" "*)" "<p>[[a]]</p>", .delimited "[[" "]]" "<p>[[a]]</p>"] := by
    simp [Alike, FunctionsCall.delimited]
  refine ⟨halike, (asUncached_iff .base compileTemplate halike).2
    ⟨distinguished_of_given (n := 2) ?_, unaware_compileTemplate _ _⟩⟩
  simp only [List.forall_mem_cons]
  exact ⟨⟨("[[", "]]"), rfl, by decide, rfl⟩, ⟨("(*", "*)"), rfl, by decide, rfl⟩,
    ⟨("[[", "]]"), rfl, by decide, rfl⟩, by simp⟩

/-- The end of a closing delimiter in one call is the beginning of the template in another: the
second call is given the functions of the first. -/
theorem collision_is_seen :
    Alike .none [.delimited "[" "]" "<!----><p>[a]<!----></p>",
        .delimited "[" "]<!---->" "<p>[a]<!----></p>"] ∧
      ¬ (Compiler.new .base compileTemplate).AsUncached
        [.delimited "[" "]" "<!----><p>[a]<!----></p>",
          .delimited "[" "]<!---->" "<p>[a]<!----></p>"] := by
  refine ⟨by simp [Alike, FunctionsCall.delimited], fun h => ?_⟩
  have hsecond := h.functions _ (List.mem_cons_of_mem _ List.mem_cons_self)
  revert hsecond
  decide +kernel

end

end ViewTree.Template
