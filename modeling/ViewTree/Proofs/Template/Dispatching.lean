import ViewTree.Proofs.Expr.RoundTrip
import ViewTree.Proofs.Instance.Preserving
import ViewTree.Proofs.Template.Checking
/-!
# Handlers that are checked and handlers that are called

The checker takes a handler for a call if something like a path stands in front of its arguments,
and for an expression otherwise. When the event comes, a method is called only if its name is an
identifier. Where it is, the two cut the handler into the same name and arguments
(`splitCall?_trim`), so what the checker lets through is called exactly if its name is an identifier
(`dispatches_iff`).
-/

namespace ViewTree.Text

open Markup (Stops stops_nil stops_cons stops_dropWhile dropWhile_of_stops)

/-! ## Blanks at the end of a text -/

theorem stops_dropBlank (cs : List Char) : Stops isBlank (dropBlank cs) :=
  stops_dropWhile isBlank cs

/-- Without the blanks behind it, a text ends in its last character that is none. -/
theorem dropBlankEnd_eq_concat {c : Char} (hc : isBlank c = false) {cs front : List Char} :
    dropBlankEnd cs = front ++ [c] ↔ ∃ bs, Blank bs ∧ cs = front ++ c :: bs := by
  constructor
  · intro h
    refine ⟨List.rtakeWhile isBlank cs, fun _ => List.mem_rtakeWhile_imp, ?_⟩
    have hcs : dropBlankEnd cs ++ List.rtakeWhile isBlank cs = cs :=
      List.rdropWhile_append_rtakeWhile
    rw [h] at hcs
    simpa using hcs.symm
  · rintro ⟨bs, hbs, rfl⟩
    have hblank : ∀ b ∈ bs.reverse, isBlank b := fun b hb => hbs b (List.mem_reverse.1 hb)
    simp [dropBlankEnd, dropBlank, List.dropWhile_append_of_pos hblank, hc]

/-- A run of characters that are not blank, with blanks behind it. -/
theorem trimChars_append_blank {cs bs : List Char} (hcs : ∀ c ∈ cs, isBlank c = false)
    (hne : cs ≠ []) (hbs : Blank bs) : trimChars (cs ++ bs) = cs := by
  have hhead : Stops isBlank (cs ++ bs) := by
    obtain ⟨c, tail, rfl⟩ := List.exists_cons_of_ne_nil hne
    exact stops_cons (hcs c List.mem_cons_self)
  obtain ⟨front, c, rfl⟩ := (List.eq_nil_or_concat' cs).resolve_left hne
  rw [trimChars, dropBlank, dropWhile_of_stops hhead,
    dropBlankEnd_eq_concat (hcs c (by simp))]
  exact ⟨bs, hbs, by simp⟩

/-- Blanks are no parts of words. -/
theorem isWord_of_isBlank {c : Char} (h : isBlank c) : isWord c = false := by
  have hall : ∀ r ∈ blankRanges, ∀ n ∈ List.range' r.1 (r.2 + 1 - r.1),
      isWord (Char.ofNat n) = false := by decide +kernel
  obtain ⟨r, hr, hin⟩ := List.any_eq_true.1 h
  simp only [Bool.and_eq_true, decide_eq_true_eq] at hin
  have hword := hall r hr c.toNat (List.mem_range'_1.2 (by omega))
  rwa [Char.ofNat_toNat] at hword

end ViewTree.Text

namespace ViewTree.Template

open Text (Blank isBlank dropBlank dropBlankEnd trimChars)
open Markup (Stops stops_nil stops_cons dropWhile_of_stops spanWhile_append)

/-! ## Calls -/

theorem isCalleeChar_of_isIdentChar {c : Char} (h : Name.isIdentChar c) : Lint.isCalleeChar c := by
  simp only [Name.isIdentChar, Bool.or_eq_true, beq_iff_eq] at h
  rcases h with (halphanum | rfl) | rfl
  · have hascii : c.toNat < 0x80 := by
      rcases Bool.or_eq_true_iff.1 halphanum with halpha | hdigit
      · have := Text.toNat_of_isAlpha halpha
        omega
      · have : 48 ≤ c.toNat ∧ c.toNat ≤ 57 := Char.isDigit_iff_toNat.1 hdigit
        omega
    simp [Lint.isCalleeChar, Text.isWord, hascii, halphanum]
  · decide
  · decide

/-- A callee ends in front of the blanks and the parenthesis behind it. -/
theorem stops_callee {blanks : List Char} (hblanks : Blank blanks) (rest : List Char) :
    Stops Lint.isCalleeChar (blanks ++ '(' :: rest) := by
  cases blanks with
  | nil => exact stops_cons (by decide)
  | cons b blanks =>
    refine stops_cons ?_
    have hword := Text.isWord_of_isBlank hblanks.head
    have hother (c : Char) (hc : isBlank c = false) : b ≠ c := hblanks.head_ne hc
    simp [Lint.isCalleeChar, hword, hother '$' (by decide), hother '.' (by decide),
      hother '[' (by decide), hother ']' (by decide), hother '\'' (by decide),
      hother '"' (by decide)]

/-- What a call is for the checker. -/
theorem call?_eq_some {h callee args : String} :
    Lint.call? h = some (callee, args) ↔
      callee.toList ≠ [] ∧ (∀ c ∈ callee.toList, Lint.isCalleeChar c) ∧
        ∃ blanks behind, Blank blanks ∧ Blank behind ∧
          dropBlank h.toList =
            callee.toList ++ (blanks ++ '(' :: (args.toList ++ ')' :: behind)) := by
  generalize hcs : dropBlank h.toList = cs
  constructor
  · intro hcall
    simp only [Lint.call?, hcs] at hcall
    split at hcall
    · cases hcall
    · rename_i rest hrest hne
      split at hcall
      · rename_i hlast
        obtain ⟨inner, hinner⟩ := List.getLast?_eq_some_iff.1 hlast
        obtain ⟨behind, hbehind, rfl⟩ := (Text.dropBlankEnd_eq_concat (by decide)).1 hinner
        rw [hinner, List.dropLast_concat, Option.some.injEq, Prod.mk.injEq] at hcall
        obtain ⟨rfl, rfl⟩ := hcall
        rw [String.toList_ofList, String.toList_ofList]
        refine ⟨hne, List.all_eq_true.1 List.all_takeWhile,
          (cs.dropWhile Lint.isCalleeChar).takeWhile isBlank, behind,
          List.all_eq_true.1 List.all_takeWhile, hbehind, ?_⟩
        rw [← hrest, dropBlank, List.takeWhile_append_dropWhile, List.takeWhile_append_dropWhile]
      · cases hcall
    · cases hcall
  · rintro ⟨hne, hall, blanks, behind, hblanks, hbehind, rfl⟩
    have hstops := stops_callee hblanks (args.toList ++ ')' :: behind)
    obtain ⟨htake, hdrop⟩ := Prod.mk.inj (spanWhile_append hall hstops)
    have hskip : dropBlank (blanks ++ '(' :: (args.toList ++ ')' :: behind)) =
        '(' :: (args.toList ++ ')' :: behind) :=
      Expr.dropBlank_blank_append hblanks (stops_cons (by decide))
    have hend : dropBlankEnd (args.toList ++ ')' :: behind) = args.toList ++ [')'] :=
      (Text.dropBlankEnd_eq_concat (by decide)).2 ⟨behind, hbehind, rfl⟩
    obtain ⟨c, part, hcons⟩ := List.exists_cons_of_ne_nil hne
    have hcallee : String.ofList (c :: part) = callee := by rw [← hcons, String.ofList_toList]
    rw [hcons] at htake hdrop hcs
    simp only [Lint.call?, hcs, htake, hdrop, hskip, hend, List.getLast?_concat,
      List.dropLast_concat, hcallee, String.ofList_toList]

theorem toList_trim (h : String) : (Text.trim h).toList = trimChars h.toList :=
  String.toList_ofList

/-- The name in front of the first parenthesis, and the text up to the last. -/
theorem splitCall?_eq_some_iff {t name args : String} :
    splitCall? t = some (name, args) ↔
      Name.isIdentifier name ∧ ∃ before, '(' ∉ before ∧ Text.trim (String.ofList before) = name ∧
        t.toList = before ++ '(' :: (args.toList ++ [')']) := by
  constructor
  · intro hsplit
    unfold splitCall? at hsplit
    split at hsplit
    · cases hsplit
    · rename_i before rest hbefore
      dsimp only at hsplit
      split at hsplit
      · rename_i inner hinner
        obtain ⟨htext, hparen⟩ := Text.splitAt?_char.1 hbefore
        have hrest : rest = inner.reverse ++ [')'] := by
          rw [← List.reverse_reverse rest, hinner, List.reverse_cons]
        rw [Option.ite_none_right_eq_some, Option.some.injEq, Prod.mk.injEq] at hsplit
        obtain ⟨hname, rfl, rfl⟩ := hsplit
        exact ⟨hname, before, hparen, rfl, by rw [htext, hrest, String.toList_ofList]⟩
      · cases hsplit
  · rintro ⟨hname, before, hparen, rfl, htext⟩
    have hsplit := Text.splitAt?_char.2 ⟨htext, hparen⟩
    simp [splitCall?, hsplit, hname]

/-- A method's name with blanks behind it, in front of the arguments. -/
theorem splitCall?_eq_some {h name args : String} :
    splitCall? (Text.trim h) = some (name, args) ↔
      Name.isIdentifier name ∧ ∃ blanks behind, Blank blanks ∧ Blank behind ∧
        dropBlank h.toList = name.toList ++ (blanks ++ '(' :: (args.toList ++ ')' :: behind)) := by
  rw [splitCall?_eq_some_iff, toList_trim]
  refine and_congr_right fun hname => ?_
  obtain ⟨c, part, hcons, hc, hall⟩ := Expr.isIdentifier_eq_cons hname
  have hblank : ∀ c ∈ name.toList, isBlank c = false := fun c hc =>
    Text.isBlank_of_isIdentChar (hall c hc)
  constructor
  · rintro ⟨before, -, hbefore, htext⟩
    have hchars : trimChars before = name.toList := by
      rw [← hbefore, toList_trim, String.toList_ofList]
    obtain ⟨blanks, hblanks, hdrop⟩ := Text.exists_eq_trimChars_append before
    rw [trimChars, ← List.cons_append, ← List.append_assoc] at htext
    obtain ⟨behind, hbehind, hcs⟩ := (Text.dropBlankEnd_eq_concat (by decide)).1 htext
    -- There is no blank in front of the whole text, so there is none in front of the name.
    have hstops : Stops isBlank before := by
      cases before with
      | nil => exact stops_nil _
      | cons x before =>
        have hhead := Text.stops_dropBlank h.toList
        rw [hcs] at hhead
        exact stops_cons (hhead x rfl)
    rw [dropBlank, dropWhile_of_stops hstops, hchars] at hdrop
    exact ⟨blanks, behind, hblanks, hbehind, by simp [hcs, hdrop]⟩
  · rintro ⟨blanks, behind, hblanks, hbehind, hcs⟩
    refine ⟨name.toList ++ blanks, ?_, ?_, ?_⟩
    · rw [List.mem_append, not_or]
      refine ⟨fun hparen => ?_, fun hparen => ?_⟩
      · exact absurd (hall _ hparen) (by decide)
      · exact absurd (hblanks _ hparen) (by decide)
    · have htrim := Text.trimChars_append_blank hblank (by simp [hcons]) hblanks
      rw [Text.trim, String.toList_ofList, htrim, String.ofList_toList]
    · have hend : dropBlankEnd (dropBlank h.toList) =
          name.toList ++ (blanks ++ '(' :: args.toList) ++ [')'] :=
        (Text.dropBlankEnd_eq_concat (by decide)).2 ⟨behind, hbehind, by simp [hcs]⟩
      rw [trimChars, hend]
      simp

/-- What is called is what the checker takes for a call, if its callee is an identifier. -/
theorem splitCall?_trim (h : String) :
    splitCall? (Text.trim h) = (Lint.call? h).filter (Name.isIdentifier ·.1) := by
  refine Option.ext fun ⟨name, args⟩ => ?_
  rw [splitCall?_eq_some, Option.filter_eq_some_iff, call?_eq_some]
  constructor
  · rintro ⟨hname, hcs⟩
    obtain ⟨c, part, hcons, -, hall⟩ := Expr.isIdentifier_eq_cons hname
    have hne : name.toList ≠ [] := by simp [hcons]
    exact ⟨⟨hne, fun c hc => isCalleeChar_of_isIdentChar (hall c hc), hcs⟩, hname⟩
  · rintro ⟨⟨-, -, hcs⟩, hname⟩
    exact ⟨hname, hcs⟩

/-! ## Elements that listen -/

/-- An element whose only attribute listens to an event. -/
def listening (tag event handler : String) : Node :=
  .element { Element.new tag with attrs := [Attribute.classify ("@" ++ event) handler none] }

theorem classify_event (event handler : String) :
    (Attribute.classify ("@" ++ event) handler none).kind = .on ∧
      (Attribute.classify ("@" ++ event) handler none).valueText = handler := by
  have hname : ("@" ++ event).toList = '@' :: event.toList := by simp
  have hdynamic : Attribute.isDynamic ("@" ++ event) := by simp [Attribute.isDynamic, hname]
  have hvalue : (Attribute.value? handler).getD "" = handler := by
    unfold Attribute.value?
    split
    · rename_i hempty
      rw [hempty, Option.getD_none]
    · rw [Option.getD_some]
  obtain ⟨name, modifiers, hsplit⟩ : ∃ name modifiers,
      Text.splitOnChar '.' ('@' :: event.toList) = ('@' :: name) :: modifiers := by
    cases htail : Text.splitOnChar '.' event.toList with
    | nil => exact ⟨[], [], by simp [Text.splitOnChar, htail]⟩
    | cons name modifiers => exact ⟨name, modifiers, by simp [Text.splitOnChar, htail]⟩
  have hkind : (Attribute.classifyBase ('@' :: name)).1 = .on := by
    simp [Attribute.classifyBase, Text.stripStart?]
  simp [Attribute.classify, hdynamic, hname, hsplit, Attribute.valueText, hvalue, hkind]

/-- Without errors at the element, its handler has passed the check of handlers. -/
theorem handlerErrors_of_listening {tag event h : String}
    (hclean : Lint.nodesErrors [listening tag event h] = []) :
    ∃ text, Lint.handlerErrors h text = [] := by
  obtain ⟨hkind, hvalue⟩ := classify_event event h
  have hnode := Lint.nodesErrors_eq_nil.1 hclean _ List.mem_cons_self
  have hattr := (Lint.nodeErrors_element.1 hnode).1 _ List.mem_cons_self
  rw [Lint.attributeErrors, hkind, hvalue] at hattr
  exact ⟨_, hattr⟩

/-- The arguments of a call that has passed the check are expressions. -/
theorem evaluates_arguments {h text callee args : String} (hclean : Lint.handlerErrors h text = [])
    (hcall : Lint.call? h = some (callee, args)) :
    ∀ source ∈ Expr.splitArguments args, Evaluates (Text.trim source) := by
  intro source hsource
  unfold Lint.handlerErrors at hclean
  split at hclean
  · cases hclean
  · rw [hcall] at hclean
    have hargs := (List.append_eq_nil_iff.1 hclean).2
    rw [evaluates_trim]
    exact Lint.evaluates_of_expressionErrors (List.flatMap_eq_nil_iff.1 hargs source hsource)

/-! ## What a listener does -/

/-- What is done in an instance, in the scope with the event, with what the event passes. -/
abbrev Reaction := Application → Uid → Scope → List Value → Run Unit

/-- The listener that any instance makes of the handler does this as long as the instance is
alive. -/
def Performs (h : String) (reaction : Reaction) : Prop :=
  ∀ (app : Application) (vm : Uid) (scope : Scope) (made : World) (args : List Value),
    app.callListener args ((Application.listenerFor vm scope h).run made).1 = do
      if (← get).alive vm then
        Run.pinned vm (reaction app vm (scope.bind "$event" (args.head?.getD .null)) args)

/-- The handler calls one method: with what the event passes if the checker does not take it for a
call, and otherwise with the values of the arguments that the checker has seen, all of which are
expressions. -/
inductive Dispatches (h : String) : Prop
  | method (name : String) (hcall : Lint.call? h = none)
      (hperforms : Performs h fun app vm _ args => app.callHandler vm name args)
  | call (name callee args : String) (hcall : Lint.call? h = some (callee, args))
      (hargs : ∀ source ∈ Expr.splitArguments args, Evaluates (Text.trim source))
      (hperforms : Performs h fun app vm scope _ => do
        let values ← app.argumentValues vm scope (Expr.splitArguments args)
        app.callHandler vm name values)

/-- The handler is reported as none. -/
def Refused (h : String) : Prop :=
  Performs h fun _ vm _ _ =>
    Run.warn s!"Invalid handler for event: \"{Text.trim h}\"" (some vm)

/-- The name of the method that the checker takes a handler to call. -/
def calledName (h : String) : String :=
  match Lint.call? h with
  | some (callee, _) => callee
  | none => Text.trim h

theorem performs_congr {h : String} {reaction : Reaction}
    (heq : ∀ app vm scope args, app.invokeHandler vm scope (Text.trim h) args =
      reaction app vm (scope.bind "$event" (args.head?.getD .null)) args) :
    Performs h reaction := by
  intro app vm scope made args
  have hlistener : ((Application.listenerFor vm scope h).run made).1 =
      .handler made.nextListener vm scope (Text.trim h) := rfl
  rw [hlistener, Application.callListener, heq]

theorem dispatches_of_isIdentifier {h text : String} (hclean : Lint.handlerErrors h text = [])
    (hname : Name.isIdentifier (calledName h)) : Dispatches h := by
  unfold calledName at hname
  cases hcall : Lint.call? h with
  | none =>
    rw [hcall] at hname
    have hsplit : splitCall? (Text.trim h) = none := by rw [splitCall?_trim, hcall]; rfl
    refine .method (Text.trim h) hcall (performs_congr fun app vm scope args => ?_)
    simp only [Application.invokeHandler, hsplit, if_pos hname]
  | some call =>
    obtain ⟨callee, args⟩ := call
    rw [hcall] at hname
    have hsplit : splitCall? (Text.trim h) = some (callee, args) := by
      rw [splitCall?_trim, hcall, Option.filter_some, if_pos hname]
    refine .call callee callee args hcall (evaluates_arguments hclean hcall) ?_
    refine performs_congr fun app vm scope passed => ?_
    simp only [Application.invokeHandler, hsplit]

/-- A text with a call's parentheses is no identifier. -/
theorem not_isIdentifier_trim_of_call? {h callee args : String}
    (hcall : Lint.call? h = some (callee, args)) : Name.isIdentifier (Text.trim h) = false := by
  rw [Bool.eq_false_iff]
  intro hname
  obtain ⟨_, _, blanks, behind, _, hbehind, hcs⟩ := call?_eq_some.1 hcall
  obtain ⟨c, part, hcons, _, hall⟩ := Expr.isIdentifier_eq_cons hname
  have hend : dropBlankEnd (dropBlank h.toList) =
      callee.toList ++ (blanks ++ '(' :: args.toList) ++ [')'] :=
    (Text.dropBlankEnd_eq_concat (by decide)).2 ⟨behind, hbehind, by simp [hcs]⟩
  have hparen : ')' ∈ (Text.trim h).toList := by
    rw [toList_trim, trimChars, hend]
    exact List.mem_concat_self
  exact absurd (hall _ hparen) (by decide)

theorem refused_of_not_isIdentifier {h : String} (hname : ¬ Name.isIdentifier (calledName h)) :
    Refused h := by
  refine performs_congr fun app vm scope args => ?_
  unfold calledName at hname
  have hsplit : splitCall? (Text.trim h) = none := by
    rw [splitCall?_trim]
    cases hcall : Lint.call? h with
    | none => rfl
    | some call =>
      rw [hcall] at hname
      rw [Option.filter_some, if_neg hname]
  have hwhole : Name.isIdentifier (Text.trim h) = false := by
    cases hcall : Lint.call? h with
    | none =>
      rw [hcall] at hname
      exact Bool.eq_false_iff.2 hname
    | some call => exact not_isIdentifier_trim_of_call? hcall
  simp only [Application.invokeHandler, hsplit, hwhole, Bool.false_eq_true, if_false]

/-! ## Reports are no calls -/

/-- Every method leaves a mark in the state. -/
def marking : Application :=
  { Code.idle with
    method := fun _ _ _ => do
      modify fun w => { w with nextSource := 1 }
      pure (.ok .null) }

/-- An instance with one method. -/
def equipped (name : String) : Instance :=
  { Instance.fresh 0 .empty with methods := [(name, 0)] }

/-- A state with this instance, which is in use. -/
def equippedWorld (name : String) : World :=
  { World.start .default with instances := [equipped name], pins := [0] }

/-- The one instance is as it was. -/
def StaysEquipped (name : String) (w : World) : Prop :=
  w.instance? 0 = some (equipped name)

theorem staysEquipped_onInstances (name : String) : World.OnInstances (StaysEquipped name) := by
  intro w w' hinstances _ h
  rw [StaysEquipped, World.instance?, hinstances]
  exact h

theorem marking_preserves (name : String) : marking.Preserves (StaysEquipped name) :=
  { idle_preserves (StaysEquipped name) with
    method := fun _ _ _ _ hw => hw }

theorem nextSource_callHandler {name : String} (args : List Value) {w : World}
    (hw : StaysEquipped name w) : ((marking.callHandler 0 name args).run w).2.nextSource = 1 := by
  have hmethod : (equipped name).methods.get? name = some 0 := by simp [equipped, Dict.get?]
  rw [Application.callHandler, run_inst_bind, hw, Option.getD_some, hmethod]
  rfl

theorem nextSource_warn (message : String) (vm : Option Uid) (w : World) :
    ((Run.warn message vm).run w).2.nextSource = w.nextSource := by
  rw [Run.warn, run_get_bind]
  split
  · split
    · rfl
    · rfl
  · rfl

/-- A reaction that leaves the mark is another than a report. -/
theorem not_refused {h : String} {reaction : Reaction} (hperforms : Performs h reaction)
    (name : String) (hmarks : ∀ scope args w, StaysEquipped name w →
      ((reaction marking 0 scope args).run w).2.nextSource = 1) : ¬ Refused h := by
  intro hrefused
  have heq := (hperforms marking 0 .root (equippedWorld name) []).symm.trans
    (hrefused marking 0 .root (equippedWorld name) [])
  have halive : (equippedWorld name).alive 0 := by
    rw [World.alive]
    simp [World.held, equippedWorld]
  have hrun := congrArg (fun act : Run Unit => (act.run (equippedWorld name)).2.nextSource) heq
  simp only [run_get_bind, halive, if_true] at hrun
  have hmarked := hmarks (Scope.root.bind "$event" .null) []
    { equippedWorld name with pins := [0, 0] } rfl
  have hunmarked := nextSource_warn s!"Invalid handler for event: \"{Text.trim h}\"" (some 0)
    { equippedWorld name with pins := [0, 0] }
  exact Nat.one_ne_zero (hmarked.symm.trans (hrun.trans hunmarked))

theorem Dispatches.not_refused {h : String} (hdispatches : Dispatches h) : ¬ Refused h := by
  cases hdispatches with
  | method name _ hperforms =>
    exact Template.not_refused hperforms name fun _ args w hw => nextSource_callHandler args hw
  | call name callee args _ _ hperforms =>
    refine Template.not_refused hperforms name fun scope _ w hw => ?_
    have hkept := preserves_argumentValues (marking_preserves name)
      (staysEquipped_onInstances name) 0 scope (Expr.splitArguments args) w hw
    exact nextSource_callHandler _ hkept

/-! ## Accepted handlers -/

/-- What the checker accepts is dispatched exactly if the name of the method is an identifier. Any
other accepted handler is reported as none when the event comes. -/
theorem dispatches_iff (tag event h : String)
    (hclean : Lint.nodesErrors [listening tag event h] = []) :
    (Dispatches h ↔ Name.isIdentifier (calledName h)) ∧ (¬ Dispatches h → Refused h) := by
  obtain ⟨text, hclean⟩ := handlerErrors_of_listening hclean
  have hiff : Dispatches h ↔ Name.isIdentifier (calledName h) := by
    refine ⟨fun hdispatches => ?_, dispatches_of_isIdentifier hclean⟩
    by_contra hname
    exact hdispatches.not_refused (refused_of_not_isIdentifier hname)
  exact ⟨hiff, fun hnot => refused_of_not_isIdentifier fun hname => hnot (hiff.2 hname)⟩

/-- A call with blanks around its parts and parentheses in a quoted text. -/
theorem dispatches_quotedParenthesis :
    Lint.nodesErrors [listening "p" "click.stop" " pick ( item.id, '(', $event ) "] = [] ∧
      Dispatches " pick ( item.id, '(', $event ) " := by
  have hclean : Lint.nodesErrors [listening "p" "click.stop" " pick ( item.id, '(', $event ) "] =
      [] := by decide +kernel
  exact ⟨hclean, (dispatches_iff _ _ _ hclean).1.2 (by decide +kernel)⟩

/-- A path in front of the arguments is accepted, but no method is called. -/
theorem dotted_not_dispatched :
    Lint.nodesErrors [listening "p" "click" "a.b(1)"] = [] ∧
      ¬ Dispatches "a.b(1)" ∧ Refused "a.b(1)" := by
  have hrefused : Refused "a.b(1)" := refused_of_not_isIdentifier (by decide +kernel)
  exact ⟨by decide +kernel, fun hdispatches => hdispatches.not_refused hrefused, hrefused⟩

end ViewTree.Template
