import ViewTree.Proofs.Template.Source
/-!
# The wording of the generator

All fixed text of the generator comes from a small stock of phrases. Each phrase closes some
brackets and opens others; code is put together so that they fit (`Code.Leads`).
-/

namespace ViewTree.Template

/-- Fixed text, the brackets that it closes, and the brackets that it leaves to be closed. -/
structure Phrase where
  text : String
  closes : List Char
  opens : List Char
deriving DecidableEq

/-- The stock of phrases. -/
def phrases : List Phrase :=
  -- calls and lists
  [⟨"Some(", [], [')']⟩, ⟨"text(", [], [')']⟩, ⟨"Child::from(", [], [')']⟩,
    ⟨"Child::List(", [], [')']⟩, ⟨"TagRef::Dynamic(", [], [')']⟩, ⟨"Value::from(", [], [')']⟩,
    ⟨"VNode::Comment(", [], [')']⟩, ⟨"vm.c(", [], [')']⟩, ⟨"vm.render_slot(", [], [')']⟩,
    ⟨"vm.to_display(&", [], [')']⟩, ⟨")", [')'], []⟩, ⟨"vec![", [], [']']⟩, ⟨"]", [']'], []⟩,
    ⟨", ", [], []⟩, ⟨".into()", [], []⟩,
    -- values
    ⟨"None", [], []⟩, ⟨"Child::Empty", [], []⟩, ⟨"VNodeData::new()", [], []⟩,
    ⟨"Normalization::None", [], []⟩, ⟨"Normalization::Simple", [], []⟩, ⟨"item", [], []⟩,
    ⟨"key", [], []⟩, ⟨"Value::from(index)", [], []⟩,
    -- the data bag
    ⟨".key(", [], [')']⟩, ⟨".reference(", [], [')']⟩, ⟨".slot(", [], [')']⟩,
    ⟨".set(", [], [')']⟩, ⟨".bind(", [], [')']⟩, ⟨".dom_prop(", [], [')']⟩,
    ⟨".on(", [], [')']⟩, ⟨".native_on(", [], [')']⟩, ⟨".with(", [], [')']⟩,
    ⟨".class(", [], [')']⟩, ⟨".static_class(", [], [')']⟩, ⟨".style(", [], [')']⟩,
    ⟨".static_style(", [], [')']⟩,
    ⟨".dom_prop(\"textContent\", Value::from(vm.to_display(&", [], [')', ')', ')']⟩,
    ⟨".dom_prop(\"innerHTML\", Value::from(vm.to_display(&", [], [')', ')', ')']⟩,
    ⟨")))", [')', ')', ')'], []⟩,
    ⟨".directive(VNodeDirective \x7b name: ", [], ['\x7d', ')']⟩, ⟨", value: ", [], []⟩,
    ⟨", expression: ", [], []⟩, ⟨", arg: ", [], []⟩, ⟨", modifiers: ", [], []⟩,
    ⟨" \x7d)", ['\x7d', ')'], []⟩,
    -- conditions and loops
    ⟨"if is_truthy(&", [], [')']⟩, ⟨") \x7b ", [')'], ['\x7d']⟩, ⟨" \x7d", ['\x7d'], []⟩,
    ⟨" else ", [], []⟩, ⟨" else \x7b ", [], ['\x7d']⟩,
    ⟨"Child::List(vm.render_list(&", [], [')', ')']⟩,
    ⟨", |item, key, index| \x7b let scope = scope", [], ['\x7d']⟩,
    ⟨", |item, key, _index| \x7b let scope = scope", [], ['\x7d']⟩,
    ⟨", |item, _key, index| \x7b let scope = scope", [], ['\x7d']⟩,
    ⟨", |item, _key, _index| \x7b let scope = scope", [], ['\x7d']⟩,
    ⟨"; ", [], []⟩, ⟨" \x7d))", ['\x7d', ')', ')'], []⟩,
    -- the end of a function
    ⟨")\n\x7d", [')', '\x7d'], []⟩]

/-- The phrase ends outside of literals, its literals are on one line, and it closes and opens the
brackets that it says. -/
def Phrase.fits (p : Phrase) : Bool :=
  match Token.ofText? p.text with
  | some ts => Token.nest p.closes ts == some p.opens && ts.all Token.isClean
  | none => false

theorem phrases_fit : ∀ p ∈ phrases, p.fits := by
  decide +kernel

/-- Fixed text of the piece is a phrase. -/
def Piece.IsWorded : Piece → Prop
  | .fixed text => ∃ phrase ∈ phrases, phrase.text = text
  | _ => True

theorem Phrase.spec {p : Phrase} (h : p ∈ phrases) :
    (Piece.fixed p.text).Ends ∧ Token.nest p.closes (Piece.fixed p.text).tokens = some p.opens ∧
      ∀ t ∈ (Piece.fixed p.text).tokens, t.isClean := by
  have hfits := phrases_fit p h
  unfold Phrase.fits at hfits
  cases hts : Token.ofText? p.text with
  | none => simp [hts] at hfits
  | some ts =>
    obtain ⟨hends, htokens⟩ := Piece.ends_of_eq (p := .fixed p.text) hts
    simp only [hts, Bool.and_eq_true, beq_iff_eq, List.all_eq_true] at hfits
    rw [htokens]
    exact ⟨hends, hfits⟩

namespace Piece.IsWorded

variable {p : Piece}

theorem ends (h : p.IsWorded) : p.Ends := by
  cases p with
  | fixed text =>
    obtain ⟨phrase, hphrase, rfl⟩ := h
    exact (Phrase.spec hphrase).1
  | literal s => exact (ends_literal s).1
  | read expr => exact (ends_read expr).1
  | listener handler => exact (ends_listener handler).1
  | hoisted index => exact (ends_hoisted index).1

theorem isClean (h : p.IsWorded) : ∀ t ∈ p.tokens, t.isClean := by
  have hmarks (text : String) : ∀ t ∈ Token.marks text, t.isClean := by
    intro t ht
    obtain ⟨c, _, rfl⟩ := List.mem_map.1 ht
    rfl
  have hcall (front s : String) :
      ∀ t ∈ Token.marks front ++ [.quoted (Token.escape s), .mark ')'], t.isClean := by
    simp only [List.mem_append, List.mem_cons, List.not_mem_nil, or_false]
    rintro t (ht | rfl | rfl)
    · exact hmarks front t ht
    · exact Token.isClean_escape s
    · rfl
  cases p with
  | fixed text =>
    obtain ⟨phrase, hphrase, rfl⟩ := h
    exact (Phrase.spec hphrase).2.2
  | literal s => simp [(ends_literal s).2, Token.isClean_escape]
  | read expr => exact (ends_read expr).2 ▸ hcall _ _
  | listener handler => exact (ends_listener handler).2 ▸ hcall _ _
  | hoisted index =>
    rw [(ends_hoisted index).2]
    simp only [List.mem_append, or_imp, forall_and]
    exact ⟨⟨hmarks _, hmarks _⟩, hmarks _⟩

end Piece.IsWorded

/-! ## Code that fits together -/

namespace Token

/-- Characters of names, among which there are neither brackets nor quotes. -/
def isNameChar (c : Char) : Bool :=
  c.isAlphanum || c == '_'

theorem nest_name (due : List Char) {cs : List Char} (h : ∀ c ∈ cs, isNameChar c) :
    nest due (cs.map mark) = some due := by
  induction cs with
  | nil => rfl
  | cons c cs ih =>
    have hc : isNameChar c := h c List.mem_cons_self
    have hne (d : Char) (hd : isNameChar d = false) : c ≠ d := by
      rintro rfl
      simp [hc] at hd
    have hbracket : closer? c = none ∧ c ≠ ')' ∧ c ≠ ']' ∧ c ≠ '\x7d' := by
      refine ⟨?_, hne _ (by decide), hne _ (by decide), hne _ (by decide)⟩
      simp [closer?, hne '(' (by decide), hne '[' (by decide), hne '\x7b' (by decide)]
    simp only [List.map_cons, nest, hbracket, decide_false, Bool.or_self, Bool.false_eq_true,
      if_false]
    exact ih fun d hd => h d (List.mem_cons_of_mem c hd)

end Token

/-- The code is worded in phrases, closes the brackets `due`, and leaves the brackets `left` to be
closed. -/
structure Code.Leads (due left : List Char) (code : Code) : Prop where
  worded : ∀ p ∈ code, p.IsWorded
  brackets : Token.nest due code.tokens = some left

/-- The code is worded in phrases and closes all brackets that it opens. -/
abbrev Code.Balanced (code : Code) : Prop :=
  code.Leads [] []

namespace Code

variable {due mid left : List Char} {a b : Code}

theorem leads_nil : Leads due due [] :=
  ⟨by simp, rfl⟩

theorem Leads.append (ha : Leads due mid a) (hb : Leads mid left b) : Leads due left (a ++ b) := by
  refine ⟨?_, ?_⟩
  · intro p hp
    exact (List.mem_append.1 hp).elim (ha.worded p) (hb.worded p)
  · rw [tokens_append, Token.nest_append, ha.brackets]
    exact hb.brackets

/-- Brackets that are due further out may be there. -/
theorem Leads.frame (h : Leads due left a) (outer : List Char) :
    Leads (due ++ outer) (left ++ outer) a :=
  ⟨h.worded, Token.nest_frame h.brackets outer⟩

theorem leads_phrase {text : String} (h : ⟨text, due, left⟩ ∈ phrases) :
    Leads due left [.fixed text] := by
  refine ⟨?_, ?_⟩
  · intro p hp
    rw [List.mem_singleton.1 hp]
    exact ⟨_, h, rfl⟩
  · simpa [tokens] using (Phrase.spec h).2.1

/-- A phrase and the code behind it. -/
theorem Leads.cons {text : String} (h : ⟨text, due, mid⟩ ∈ phrases) (ha : Leads mid left a) :
    Leads due left (.fixed text :: a) :=
  (leads_phrase h).append ha

theorem balanced_literal (s : String) : Balanced [.literal s] :=
  ⟨by simp [Piece.IsWorded], by rw [tokens_cons, (Piece.ends_literal s).2]; rfl⟩

theorem balanced_read (expr : String) : Balanced [.read expr] :=
  ⟨by simp [Piece.IsWorded], by rw [tokens_cons, (Piece.ends_read expr).2]; rfl⟩

theorem balanced_listener (handler : String) : Balanced [.listener handler] :=
  ⟨by simp [Piece.IsWorded], by rw [tokens_cons, (Piece.ends_listener handler).2]; rfl⟩

theorem balanced_hoisted (index : Nat) : Balanced [.hoisted index] := by
  refine ⟨by simp [Piece.IsWorded], ?_⟩
  have hindex (due : List Char) : Token.nest due (Token.marks (toString index)) = some due :=
    Token.nest_name due fun c hc => by
      simp [Token.isNameChar, Char.isAlphanum, Piece.isDigit_of_mem_toString hc]
  have hfront : Token.nest [] (Token.marks "Child::from(vm.static_tree(") = some [')', ')'] := rfl
  rw [tokens_cons, (Piece.ends_hoisted index).2, tokens_nil, List.append_nil, Token.nest_append,
    Token.nest_append, hfront, Option.bind_some, hindex]
  rfl

end Code

/-! ## Functions -/

/-- What stands in front of a function's name. -/
def functionStart : String :=
  "#[allow(unused_variables)]\npub fn "

/-- What stands between a function's name and its body. -/
def functionSignature : String :=
  "(vm: &vireo_core::Instance) -> vireo_dom::Rendered \x7b\n" ++
    "    use vireo_dom::*;\n    let scope = vireo_core::Scope::root();\n    vm.root("

namespace Code

/-- The tokens of the text in front of a body. -/
def functionTokens (name : String) : List Token :=
  Token.marks functionStart ++ Token.marks name ++ Token.marks functionSignature

/-- The text of a function is that of its body with fixed text around it. -/
theorem text_function (name : String) (body : Code) :
    text (function name body) =
      functionStart ++ name ++ functionSignature ++ text (body ++ [.fixed ")\n\x7d"]) := by
  unfold function functionSignature
  rw [List.cons_append, text_cons, ← String.append_assoc]
  rfl

theorem ofText?_function {name : String} (hname : name.toList.all Token.isNameChar) {body : Code}
    (hbody : ∀ p ∈ body, p.IsWorded) :
    Token.ofText? (text (function name body)) =
      some (functionTokens name ++ tokens (body ++ [.fixed ")\n\x7d"])) := by
  have hstart : Token.ofText? functionStart = some (Token.marks functionStart) :=
    Token.ofText?_marks (by decide)
  have hquote : Token.ofText? name = some (Token.marks name) :=
    Token.ofText?_marks fun h => absurd (List.all_eq_true.1 hname _ h) (by decide)
  have hsignature : Token.ofText? functionSignature = some (Token.marks functionSignature) :=
    Token.ofText?_marks (by decide +kernel)
  have hrest : Token.ofText? (text (body ++ [.fixed ")\n\x7d"])) =
      some (tokens (body ++ [.fixed ")\n\x7d"])) := by
    refine ofText?_text fun p hp => ?_
    rcases List.mem_append.1 hp with hp | hp
    · exact (hbody p hp).ends
    · rw [List.mem_singleton.1 hp]
      exact (Phrase.spec (p := ⟨")\n\x7d", [')', '\x7d'], []⟩) (by decide)).1
  rw [text_function, String.append_assoc, String.append_assoc, Token.ofText?_append hstart,
    Token.ofText?_append hquote, Token.ofText?_append hsignature, hrest]
  simp [functionTokens]

theorem nest_functionTokens {name : String} (hname : name.toList.all Token.isNameChar) :
    Token.nest [] (functionTokens name) = some [')', '\x7d'] := by
  have hstart : Token.nest [] (Token.marks functionStart) = some [] := by decide +kernel
  have hsignature : Token.nest [] (Token.marks functionSignature) = some [')', '\x7d'] := by
    decide +kernel
  have hmiddle : Token.nest [] (Token.marks name) = some [] :=
    Token.nest_name [] (List.all_eq_true.1 hname)
  rw [functionTokens, Token.nest_append, Token.nest_append, hstart, Option.bind_some, hmiddle,
    Option.bind_some, hsignature]

end Code

end ViewTree.Template
