import Mathlib.Data.List.Infix
import ViewTree.Proofs.Template.Escaping
/-!
# Calls in generated source

Whether source text reads an expression or makes a listener is seen from its tokens. No piece of
code ends in the beginning of such a call, so a call in the source is a call in one of the pieces
(`infix_tokens_iff`).
-/

namespace ViewTree.Template

namespace Token

/-- Nothing at the end of the tokens begins the pattern. -/
def Ended (pattern ts : List Token) : Prop :=
  ∀ front ∈ pattern.inits, front ≠ [] → ¬ front <:+ ts

instance (pattern ts : List Token) : Decidable (Ended pattern ts) :=
  inferInstanceAs (Decidable (∀ front ∈ pattern.inits, front ≠ [] → ¬ front <:+ ts))

/-- The pattern neither stands in the tokens nor begins at their end. -/
structure Apart (pattern ts : List Token) : Prop where
  free : ¬ pattern <:+: ts
  ended : Ended pattern ts

instance (pattern ts : List Token) : Decidable (Apart pattern ts) :=
  decidable_of_iff (¬ pattern <:+: ts ∧ Ended pattern ts)
    ⟨fun ⟨free, ended⟩ => ⟨free, ended⟩, fun ⟨free, ended⟩ => ⟨free, ended⟩⟩

section

variable {pattern a b ts : List Token}

theorem ended_iff :
    Ended pattern ts ↔ ∀ front, front <+: pattern → front ≠ [] → ¬ front <:+ ts := by
  simp [Ended, List.mem_inits]

/-- The last token is none of the pattern. -/
theorem ended_of_getLast (h : ∀ t ∈ ts.getLast?, t ∉ pattern) : Ended pattern ts := by
  rw [ended_iff]
  rintro front hfront hne ⟨rest, rfl⟩
  have hlast : front.getLast hne ∈ (rest ++ front).getLast? := by
    simp [List.getLast?_append, List.getLast?_eq_some_getLast hne]
  exact h _ hlast (hfront.subset (List.getLast_mem hne))

/-- A pattern behind ended tokens does not begin in them. -/
theorem infix_append_iff (ha : Ended pattern a) :
    pattern <:+: a ++ b ↔ pattern <:+: a ∨ pattern <:+: b := by
  rw [ended_iff] at ha
  rw [List.infix_append_iff]
  refine or_congr_right ⟨?_, .inl⟩
  rintro (hb | ⟨front, rest, rfl, hfront, hrest⟩)
  · exact hb
  · cases front with
    | nil => exact hrest.isInfix
    | cons t front => exact absurd hfront (ha _ (List.prefix_append _ _) (List.cons_ne_nil _ _))

theorem Ended.append (ha : Ended pattern a) (hb : Ended pattern b) : Ended pattern (a ++ b) := by
  rw [ended_iff] at ha hb ⊢
  intro front hfront hne hsuffix
  -- What ends in `b` without ending `b` itself has a part that ends `a`.
  rcases List.suffix_or_suffix_of_suffix hsuffix (List.suffix_append a b) with h | ⟨start, rfl⟩
  · exact hb front hfront hne h
  · cases start with
    | nil => exact hb _ hfront hne List.suffix_rfl
    | cons t start =>
      have hstart : t :: start <:+ a := by
        obtain ⟨more, hmore⟩ := hsuffix
        rw [← List.append_assoc] at hmore
        exact ⟨more, List.append_cancel_right hmore⟩
      exact ha _ ((List.prefix_append _ _).trans hfront) (List.cons_ne_nil _ _) hstart

theorem Apart.append (ha : Apart pattern a) (hb : Apart pattern b) : Apart pattern (a ++ b) := by
  refine ⟨?_, ha.ended.append hb.ended⟩
  rw [infix_append_iff ha.ended]
  exact not_or_intro ha.free hb.free

/-- A longer pattern is apart as well. -/
theorem Apart.extend (h : Apart pattern ts) (more : List Token) : Apart (pattern ++ more) ts := by
  have hlonger {front : List Token} (hfront : pattern <+: front) : ¬ front <:+ ts :=
    fun hsuffix => h.free (hfront.isInfix.trans hsuffix.isInfix)
  refine ⟨fun hfound => h.free ((List.prefix_append _ _).isInfix.trans hfound), ?_⟩
  rw [ended_iff]
  intro front hfront hne
  rcases List.prefix_or_prefix_of_prefix hfront (List.prefix_append pattern more) with
    hshort | hlong
  · exact ended_iff.1 h.ended front hshort hne
  · exact hlonger hlong

/-- Tokens that are none of the pattern's. -/
theorem apart_of_disjoint (hpattern : pattern ≠ []) (h : ∀ t ∈ ts, t ∉ pattern) :
    Apart pattern ts := by
  refine ⟨fun hfound => ?_, ended_of_getLast fun t ht => h t (List.mem_of_mem_getLast? ht)⟩
  have hhead := List.head_mem hpattern
  exact h _ (hfound.subset hhead) hhead

end

end Token

/-! ## Pieces -/

/-- The calls that read from the scope of a render call. -/
def scopeCalls : List String :=
  ["vm.resolve_in", "vm.listener"]

/-- The piece reads nothing from the scope. -/
def Piece.IsSilent : Piece → Prop
  | .read _ => False
  | .listener _ => False
  | _ => True

section

open Token

variable {call : String}

theorem phrases_apart : ∀ phrase ∈ phrases, ∀ call ∈ scopeCalls,
    Apart (marks call) (Piece.fixed phrase.text).tokens := by
  decide +kernel

theorem scopeCalls_wording :
    ∀ call ∈ scopeCalls, marks call ≠ [] ∧ call.toList.any Char.isDigit = false := by
  decide +kernel

theorem apart_number (hcall : call ∈ scopeCalls) (n : Nat) :
    Apart (marks call) (marks (toString n)) := by
  obtain ⟨hne, hdigits⟩ := scopeCalls_wording call hcall
  refine apart_of_disjoint hne ?_
  simp only [marks, List.mem_map]
  rintro _ ⟨c, hc, rfl⟩ ⟨d, hd, hcd⟩
  cases hcd
  have hdigit := Piece.isDigit_of_mem_toString hc
  exact List.any_eq_false.1 hdigits c hd hdigit

theorem apart_quoted (hcall : call ∈ scopeCalls) (raw : List Char) :
    Apart (marks call) [.quoted raw] :=
  apart_of_disjoint (scopeCalls_wording call hcall).1 (by simp [marks])

/-- Pieces that read nothing from the scope are apart from the calls that do. -/
theorem apart_piece {p : Piece} (hworded : p.IsWorded) (hsilent : p.IsSilent)
    (hcall : call ∈ scopeCalls) : Apart (marks call) p.tokens := by
  cases p with
  | fixed text =>
    obtain ⟨phrase, hphrase, rfl⟩ := hworded
    exact phrases_apart phrase hphrase call hcall
  | literal s =>
    rw [(Piece.ends_literal s).2]
    exact apart_quoted hcall _
  | read expr => exact hsilent.elim
  | listener handler => exact hsilent.elim
  | hoisted index =>
    have hfront : ∀ call ∈ scopeCalls, Apart (marks call) (marks "Child::from(vm.static_tree(") ∧
        Apart (marks call) (marks "))") := by decide +kernel
    rw [(Piece.ends_hoisted index).2]
    exact ((hfront call hcall).1.append (apart_number hcall index)).append (hfront call hcall).2

theorem apart_tokens {pattern : List Token} (hpattern : pattern ≠ []) {code : Code}
    (h : ∀ p ∈ code, Apart pattern p.tokens) : Apart pattern code.tokens := by
  induction code with
  | nil => exact apart_of_disjoint hpattern (by simp)
  | cons p code ih =>
    exact (h p List.mem_cons_self).append (ih fun q hq => h q (List.mem_cons_of_mem p hq))

/-- A pattern that no piece ends in is in one of the pieces. -/
theorem infix_tokens_iff {pattern : List Token} (hpattern : pattern ≠ []) {code : Code}
    (h : ∀ p ∈ code, Ended pattern p.tokens) :
    pattern <:+: code.tokens ↔ ∃ p ∈ code, pattern <:+: p.tokens := by
  induction code with
  | nil => simp [hpattern]
  | cons p code ih =>
    rw [Code.tokens_cons, infix_append_iff (h p List.mem_cons_self),
      ih fun q hq => h q (List.mem_cons_of_mem p hq), List.exists_mem_cons_iff]

/-! ## Sources -/

theorem apart_functionTokens {name : String} (hname : IsFunctionName name)
    (hcall : call ∈ scopeCalls) : Apart (marks call) (Code.functionTokens name) := by
  have hwording : ∀ call ∈ scopeCalls, Apart (marks call) (marks functionStart) ∧
      Apart (marks call) (marks functionSignature) ∧ Apart (marks call) (marks "render") ∧
        Apart (marks call) (marks "static_render_") := by
    decide +kernel
  obtain ⟨hstart, hsignature, hrender, hstatic⟩ := hwording call hcall
  have hmiddle : Apart (marks call) (marks name) := by
    rcases hname with rfl | ⟨i, rfl⟩
    · exact hrender
    · have hindex : (s!"static_render_{i}" : String) = "static_render_" ++ toString i := rfl
      rw [hindex, marks_append]
      exact hstatic.append (apart_number hcall i)
  exact (hstart.append hmiddle).append hsignature

/-- Read as tokens, the source never has the text outside of a literal. -/
def NeverSays (source text : String) : Prop :=
  ∃ ts, ofText? source = some ts ∧ ¬ marks text <:+: ts

/-- A function around silent code makes no call that reads from the scope. -/
theorem neverSays_function {name : String} (hname : IsFunctionName name)
    {body : Code} (hworded : ∀ p ∈ body, p.IsWorded)
    (hsilent : ∀ p ∈ body, p.IsSilent) (hcall : call ∈ scopeCalls) :
    NeverSays (Code.text (Code.function name body)) call := by
  refine ⟨_, Code.ofText?_function hname.chars hworded, ?_⟩
  refine Apart.free ((apart_functionTokens hname hcall).append ?_)
  refine apart_tokens (scopeCalls_wording call hcall).1 fun p hp => ?_
  rcases List.mem_append.1 hp with hp | hp
  · exact apart_piece (hworded p hp) (hsilent p hp) hcall
  · rw [List.mem_singleton.1 hp]
    exact phrases_apart ⟨")\n\x7d", [')', '\x7d'], []⟩ (by decide) call hcall

/-! ## Expressions in sources -/

/-- The call that reads an expression, with its literal as it is written. -/
def reading (raw : List Char) : List Token :=
  marks "vm.resolve_in(&scope, " ++ [.quoted raw]

/-- Read as tokens, the source has a call that reads the expression. -/
def ReadsIn (source expr : String) : Prop :=
  ∃ ts raw, ofText? source = some ts ∧ reading raw <:+: ts ∧ unescape raw = some expr.toList

theorem reading_eq (raw : List Char) :
    reading raw = marks "vm.resolve_in" ++ (marks "(&scope, " ++ [.quoted raw]) := by
  rw [reading, ← List.append_assoc, ← marks_append]
  rfl

/-- Only a piece that reads an expression has the call. -/
theorem apart_reading {p : Piece} (hworded : p.IsWorded) (hp : ∀ expr, p ≠ .read expr)
    (raw : List Char) : Apart (reading raw) p.tokens := by
  rw [reading_eq]
  refine Apart.extend ?_ _
  cases p with
  | read expr => exact absurd rfl (hp expr)
  | listener handler =>
    have hfront : Apart (marks "vm.resolve_in") (marks "vm.listener(&scope, ") := by decide +kernel
    have hback : Apart (marks "vm.resolve_in") [.mark ')'] := by decide +kernel
    rw [(Piece.ends_listener handler).2]
    exact hfront.append ((apart_quoted (by decide) _).append hback)
  | fixed text => exact apart_piece hworded trivial (by decide)
  | literal s => exact apart_piece hworded trivial (by decide)
  | hoisted index => exact apart_piece hworded trivial (by decide)

/-- A piece that reads an expression has the call with this one expression, and nothing behind it
that begins another one. -/
theorem reading_read (raw : List Char) (expr : String) :
    Ended (reading raw) (Piece.read expr).tokens ∧
      (reading raw <:+: (Piece.read expr).tokens ↔ raw = escape expr) := by
  have hmark : (.mark ')') ∉ marks "vm.resolve_in(&scope, " := by decide +kernel
  rw [(Piece.ends_read expr).2]
  refine ⟨ended_of_getLast ?_, ?_, ?_⟩
  · intro t ht
    have hlast : t = .mark ')' := by simpa [List.getLast?_append] using ht.symm
    simp [hlast, reading, hmark]
  · intro h
    have hmem := h.subset (List.mem_append_right _ List.mem_cons_self)
    simpa [marks] using hmem
  · rintro rfl
    exact (List.prefix_append _ [.mark ')']).isInfix.trans (by simp [reading])

theorem reading_piece {p : Piece} (hworded : p.IsWorded) (raw : List Char) :
    Ended (reading raw) p.tokens ∧
      (reading raw <:+: p.tokens ↔ ∃ expr, p = .read expr ∧ raw = escape expr) := by
  by_cases hp : ∃ expr, p = .read expr
  · obtain ⟨expr, rfl⟩ := hp
    obtain ⟨hended, hfound⟩ := reading_read raw expr
    exact ⟨hended, hfound.trans (by simp)⟩
  · rw [not_exists] at hp
    have hapart := apart_reading hworded hp raw
    exact ⟨hapart.ended, iff_of_false hapart.free fun ⟨expr, hexpr, _⟩ => hp expr hexpr⟩

/-- The calls in the source of a function are those of its body. -/
theorem readsIn_function {name : String} (hname : IsFunctionName name) {body : Code}
    (hworded : ∀ p ∈ body, p.IsWorded) (expr : String) :
    ReadsIn (Code.text (Code.function name body)) expr ↔ .read expr ∈ body := by
  have hcode : ∀ p ∈ body ++ [.fixed ")\n\x7d"], p.IsWorded :=
    List.forall_mem_append.2 ⟨hworded, List.forall_mem_singleton.2
      ⟨⟨")\n\x7d", [')', '\x7d'], []⟩, by decide, rfl⟩⟩
  have hfunction : Apart (marks "vm.resolve_in") (Code.functionTokens name) :=
    apart_functionTokens hname (by decide)
  have hfound (raw : List Char) :
      reading raw <:+: Code.functionTokens name ++ Code.tokens (body ++ [.fixed ")\n\x7d"]) ↔
        ∃ expr, .read expr ∈ body ∧ raw = escape expr := by
    have hapart : Apart (reading raw) (Code.functionTokens name) := by
      rw [reading_eq]
      exact hfunction.extend _
    rw [infix_append_iff hapart.ended, or_iff_right hapart.free,
      infix_tokens_iff (by simp [reading]) fun p hp => (reading_piece (hcode p hp) raw).1]
    constructor
    · rintro ⟨p, hp, h⟩
      obtain ⟨expr, rfl, rfl⟩ := (reading_piece (hcode p hp) raw).2.1 h
      exact ⟨expr, by simpa using hp, rfl⟩
    · rintro ⟨expr, hexpr, rfl⟩
      exact ⟨.read expr, List.mem_append_left _ hexpr, (reading_read _ expr).2.2 rfl⟩
  have htokens := Code.ofText?_function hname.chars hworded
  constructor
  · rintro ⟨ts, raw, hts, hreading, hraw⟩
    rw [htokens, Option.some.injEq] at hts
    obtain ⟨e, he, rfl⟩ := (hfound raw).1 (hts ▸ hreading)
    rw [unescape_escape, Option.some.injEq, String.toList_inj] at hraw
    exact hraw ▸ he
  · intro hexpr
    exact ⟨_, escape expr, htokens, (hfound _).2 ⟨expr, hexpr, rfl⟩, unescape_escape expr⟩

end

end ViewTree.Template
