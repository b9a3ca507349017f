import ViewTree.Proofs.Template.Escaping
/-!
# Calls on a data bag

The data of an element is generated as a new bag with a chain of calls behind it. `chain?` reads the
calls from such source, as a reader of the code does who knows nothing of where they come from, and
it reads every chain of calls that is written down (`chain?_written`).
-/

namespace ViewTree.Template

/-- A call in a chain: the method, and its arguments as they are written. -/
structure BagCall where
  method : String
  args : List Token
deriving DecidableEq

/-- Where the reader of a chain is: between two calls, in the name of a method, or among the
arguments of a call, where closing brackets may be due. -/
inductive ChainPlace where
  | between
  | naming (method : List Char)
  | inside (method : List Char) (due : List Char) (args : List Token)

/-- The calls of a chain, in order. A call ends at the parenthesis that closes it, and there are
none if the source is no chain. -/
def chain? : ChainPlace → List Token → Option (List BagCall)
  | .between, [] => some []
  | .between, .mark c :: ts => if c = '.' then chain? (.naming []) ts else none
  | .naming method, .mark c :: ts =>
    if c = '(' then chain? (.inside method [] []) ts
    else if Token.isNameChar c then chain? (.naming (method ++ [c])) ts
    else none
  | .inside method due args, t :: ts =>
    if due = [] ∧ t = .mark ')' then
      (chain? .between ts).map (⟨String.ofList method, args⟩ :: ·)
    else
      match Token.nest due [t] with
      | some due => chain? (.inside method due (args ++ [t])) ts
      | none => none
  | _, _ => none

/-- What the data of an element begins with. -/
def newBag : List Token :=
  Token.marks "VNodeData::new()"

/-- The calls on the new bag that the source of an element's data consists of. -/
def bagCalls? (source : String) : Option (List BagCall) := do
  let ts ← Token.ofText? source
  if newBag <+: ts then chain? .between (ts.drop newBag.length) else none

/-- The calls that the source of a part of the data consists of. -/
def partCalls? (source : String) : Option (List BagCall) := do
  let ts ← Token.ofText? source
  chain? .between ts

namespace BagCall

/-- How the call is written. -/
def written (c : BagCall) : List Token :=
  .mark '.' :: Token.marks c.method ++ .mark '(' :: c.args ++ [.mark ')']

/-- The method has a name, and all brackets among the arguments are nested. -/
structure Fits (c : BagCall) : Prop where
  method : c.method.toList.all Token.isNameChar
  args : Token.nest [] c.args = some []

/-- The call of a method with these arguments. -/
def of (method : String) (args : List Code) : BagCall :=
  ⟨method, Code.tokens (Code.commas args)⟩

end BagCall

/-! ## Reading -/

section

variable {c : BagCall} {ts : List Token} (rest : List Token)

theorem chain?_name (method : List Char) {cs : List Char} (h : ∀ c ∈ cs, Token.isNameChar c) :
    chain? (.naming method) (cs.map .mark ++ rest) = chain? (.naming (method ++ cs)) rest := by
  induction cs generalizing method with
  | nil => rw [List.map_nil, List.nil_append, List.append_nil]
  | cons c cs ih =>
    have hc : Token.isNameChar c := h c List.mem_cons_self
    have hopen : c ≠ '(' := by
      rintro rfl
      exact absurd hc (by decide)
    rw [List.map_cons, List.cons_append, chain?, if_neg hopen, if_pos hc,
      ih _ fun d hd => h d (List.mem_cons_of_mem c hd), List.append_assoc]
    rfl

/-- Arguments are read as far as their brackets are nested. -/
theorem chain?_args (method : List Char) {due left : List Char} (h : Token.nest due ts = some left)
    (args : List Token) :
    chain? (.inside method due args) (ts ++ rest) =
      chain? (.inside method left (args ++ ts)) rest := by
  induction ts generalizing due args with
  | nil =>
    cases h
    rw [List.nil_append, List.append_nil]
  | cons t ts ih =>
    rw [← List.singleton_append, Token.nest_append, Option.bind_eq_some_iff] at h
    obtain ⟨due', ht, hts⟩ := h
    have hlast : ¬ (due = [] ∧ t = .mark ')') := by
      rintro ⟨rfl, rfl⟩
      cases ht
    rw [List.cons_append, chain?, if_neg hlast, ht]
    dsimp only
    rw [ih hts, List.append_assoc, List.singleton_append]

/-- A call in front of a chain is read. -/
theorem chain?_call (h : c.Fits) :
    chain? .between (c.written ++ rest) = (chain? .between rest).map (c :: ·) := by
  have hname := chain?_name (.mark '(' :: (c.args ++ .mark ')' :: rest)) []
    (List.all_eq_true.1 h.method)
  have hargs := chain?_args (.mark ')' :: rest) c.method.toList h.args []
  have hwritten : c.written ++ rest =
      .mark '.' :: (c.method.toList.map .mark ++ .mark '(' :: (c.args ++ .mark ')' :: rest)) := by
    simp [BagCall.written, Token.marks]
  rw [hwritten, chain?, if_pos rfl, hname, chain?, if_pos rfl, List.nil_append, hargs, chain?,
    if_pos ⟨rfl, rfl⟩, String.ofList_toList, List.nil_append]

/-- A chain of calls is read as it is written. -/
theorem chain?_written {cs : List BagCall} (h : ∀ c ∈ cs, c.Fits) :
    chain? .between (cs.flatMap BagCall.written) = some cs := by
  induction cs with
  | nil => rfl
  | cons c cs ih =>
    rw [List.flatMap_cons, chain?_call _ (h c List.mem_cons_self),
      ih fun d hd => h d (List.mem_cons_of_mem c hd)]
    rfl

theorem partCalls?_eq {code : Code} (hends : ∀ p ∈ code, p.IsWorded) {cs : List BagCall}
    (h : ∀ c ∈ cs, c.Fits) (hcode : code.tokens = cs.flatMap BagCall.written) :
    partCalls? code.text = some cs := by
  rw [partCalls?, Code.ofText?_text fun p hp => (hends p hp).ends, hcode]
  exact chain?_written h

theorem bagCalls?_eq {code : Code} (hends : ∀ p ∈ code, p.IsWorded) {cs : List BagCall}
    (h : ∀ c ∈ cs, c.Fits) (hcode : code.tokens = newBag ++ cs.flatMap BagCall.written) :
    bagCalls? code.text = some cs := by
  rw [bagCalls?, Code.ofText?_text fun p hp => (hends p hp).ends, hcode]
  have hfront : newBag <+: newBag ++ cs.flatMap BagCall.written := List.prefix_append _ _
  simp only [Option.bind_eq_bind, Option.bind_some, if_pos hfront, List.drop_left]
  exact chain?_written h

end

/-! ## Calls that are generated -/

theorem tokens_fixed {text : String} (h : '"' ∉ text.toList) :
    (Piece.fixed text).tokens = Token.marks text :=
  (Piece.ends_of_eq (p := .fixed text) (Token.ofText?_marks h)).2

theorem quote_not_mem {name : String} (h : name.toList.all Token.isNameChar) :
    '"' ∉ name.toList := by
  intro hmem
  exact absurd (List.all_eq_true.1 h _ hmem) (by decide)

theorem BagCall.fits_of {method : String} (hmethod : method.toList.all Token.isNameChar)
    {args : List Code} (hargs : ∀ arg ∈ args, Code.Balanced arg) : (of method args).Fits :=
  ⟨hmethod, (Code.balanced_commas hargs).brackets⟩

/-- A call is generated between its method and the parenthesis that closes it. -/
theorem tokens_call {method : String} (hmethod : method.toList.all Token.isNameChar) (code : Code) :
    Code.tokens (.fixed ("." ++ method ++ "(") :: code ++ [.fixed ")"]) =
      BagCall.written ⟨method, code.tokens⟩ := by
  have hquote : '"' ∉ ("." ++ method ++ "(").toList := by
    have hname := quote_not_mem hmethod
    simp only [String.toList_append, List.mem_append, not_or]
    exact ⟨⟨by decide, hname⟩, by decide⟩
  rw [Code.tokens_append, Code.tokens_cons, tokens_fixed hquote, Token.marks_append,
    Token.marks_append]
  simp [BagCall.written, tokens_fixed]
  rfl

theorem tokens_setter {method : String} (hmethod : method.toList.all Token.isNameChar)
    (args : List Code) : Code.tokens (setter method args) = (BagCall.of method args).written :=
  tokens_call hmethod (Code.commas args)

end ViewTree.Template
