import Flowchart.Flow.Parsing
import Mathlib.Data.List.Basic

/-!
# The grammar of flow text

A grammar of the tokens that mean something, one relation for each of its symbols:

    flow  = separator*  |  lane
    lane  = separator* chain
    chain = link (separator+ link)* separator*
    link  = label? item
    label = "[" (text | quoted) "]"
    item  = quoted  |  text
          | "parallel" "(" lane ("|" lane)* ")"
          | "loop" label? "(" lane ")"

A relation holds between a tree, the tokens in front of which the tree is derived, and the tokens
behind it. Only one rule looks at what is behind: a text that is a keyword in front of a bracket is
no step. **An item takes a token at least**, so a reader that may make a few calls for each token can
read any tree.
-/

namespace Flowchart.Flow

open Text (sameLetters)
open TokenReader (Group)

/-! ## The grammar -/

/-- All of these tokens separate steps. -/
def AreSeparators (ts : List (Spanned Token)) : Prop := ∀ t ∈ ts, t.value.isSeparator = true

/-- One of these tokens ends the branches before it. -/
def hasMerge (ts : List (Spanned Token)) : Bool := ts.any fun t => t.value = .mergeArrow

/-- A text that is the keyword of a group, in front of an opening bracket. -/
def StartsGroup (group : Group) (content : List Char) (rest : List (Spanned Token)) : Prop :=
  sameLetters content group.keyword.toList = true ∧
    ∃ t ∈ rest.head?, t.value = .openParen ∨ t.value = .openBracket

/-- No label, or one text or quoted string in square brackets. -/
inductive DerivesLabel :
    Option BranchLabel → List (Spanned Token) → List (Spanned Token) → Prop
  | none {rest : List (Spanned Token)} : DerivesLabel none rest rest
  | some {content : List Char} {text : Spanned Token} {opener closer : Span}
      {rest : List (Spanned Token)}
      (htext : text.value = .text content ∨ text.value = .quoted content) :
      DerivesLabel (some ⟨String.ofList content, opener.union closer⟩)
        (⟨.openBracket, opener⟩ :: text :: ⟨.closeBracket, closer⟩ :: rest) rest

mutual

/-- A step or a group. -/
inductive Item.Derives : Item → List (Spanned Token) → List (Spanned Token) → Prop
  | quoted {content : List Char} {span : Span} {rest : List (Spanned Token)} :
      Item.Derives (.step (String.ofList content)) (⟨.quoted content, span⟩ :: rest) rest
  | text {content : List Char} {span : Span} {rest : List (Spanned Token)}
      (hplain : ∀ group, ¬ StartsGroup group content rest) :
      Item.Derives (.step (String.ofList content)) (⟨.text content, span⟩ :: rest) rest
  | parallel {content : List Char} {keyword opener : Span} {lanes : Lanes}
      {ts rest : List (Spanned Token)}
      (hgroup : StartsGroup .parallel content (⟨.openParen, opener⟩ :: ts))
      (hlanes : Lanes.Derives lanes ts rest) :
      Item.Derives (.parallel lanes) (⟨.text content, keyword⟩ :: ⟨.openParen, opener⟩ :: ts) rest
  | loop {content : List Char} {keyword opener closer : Span} {label : Option BranchLabel}
      {body : Chain} {ts us rest : List (Spanned Token)}
      (hgroup : StartsGroup .loop content ts)
      (hlabel : DerivesLabel label ts (⟨.openParen, opener⟩ :: us))
      (hbody : Chain.DerivesLane body us (⟨.closeParen, closer⟩ :: rest)) :
      Item.Derives (.loop (label.map Spanned.value) body) (⟨.text content, keyword⟩ :: ts) rest

/-- Links with separators between them and behind them. -/
inductive Chain.Derives : Chain → List (Spanned Token) → List (Spanned Token) → Prop
  | start {label : Option BranchLabel} {item : Item} {links : Links}
      {ts us vs rest : List (Spanned Token)}
      (hlabel : DerivesLabel label ts us) (hitem : Item.Derives item us vs)
      (hlinks : Links.Derives links vs rest) :
      Chain.Derives (.start label item links) ts rest

/-- What follows a link: separators, and another link or none. -/
inductive Links.Derives : Links → List (Spanned Token) → List (Spanned Token) → Prop
  | nil {seps rest : List (Spanned Token)} (hseps : AreSeparators seps) :
      Links.Derives .nil (seps ++ rest) rest
  | next {label : Option BranchLabel} {item : Item} {links : Links}
      {seps ts us vs rest : List (Spanned Token)}
      (hseps : AreSeparators seps) (hne : seps ≠ []) (hlabel : DerivesLabel label ts us)
      (hitem : Item.Derives item us vs) (hlinks : Links.Derives links vs rest) :
      Links.Derives (.next (hasMerge seps) label item links) (seps ++ ts) rest

/-- A chain with separators in front. -/
inductive Chain.DerivesLane : Chain → List (Spanned Token) → List (Spanned Token) → Prop
  | lane {chain : Chain} {seps ts rest : List (Spanned Token)}
      (hseps : AreSeparators seps) (hchain : Chain.Derives chain ts rest) :
      Chain.DerivesLane chain (seps ++ ts) rest

/-- Lanes with pipes between them, and the parenthesis that closes their group. -/
inductive Lanes.Derives : Lanes → List (Spanned Token) → List (Spanned Token) → Prop
  | last {lane : Chain} {closer : Span} {ts rest : List (Spanned Token)}
      (hlane : Chain.DerivesLane lane ts (⟨.closeParen, closer⟩ :: rest)) :
      Lanes.Derives (.last lane) ts rest
  | cons {lane : Chain} {lanes : Lanes} {pipe : Span} {ts us rest : List (Spanned Token)}
      (hlane : Chain.DerivesLane lane ts (⟨.pipe, pipe⟩ :: us))
      (hlanes : Lanes.Derives lanes us rest) :
      Lanes.Derives (.cons lane lanes) ts rest

end

/-- The tokens that mean something. -/
def significant (tokens : List (Spanned Token)) : List (Spanned Token) :=
  tokens.filter fun token => !token.value.isTrivia

/-- A whole list of tokens: separators only, or a lane. -/
inductive DerivesFlow : Option Chain → List (Spanned Token) → Prop
  | empty {seps : List (Spanned Token)} (hseps : AreSeparators seps) : DerivesFlow none seps
  | chain {chain : Chain} {ts : List (Spanned Token)} (hlane : Chain.DerivesLane chain ts []) :
      DerivesFlow (some chain) ts

/-! ## Groups and separators -/

/-- **A keyword starts its group in front of a bracket only.** -/
theorem group?_eq_some_iff {group : Group} {content : List Char} {rest : List (Spanned Token)} :
    TokenReader.group? content rest.head? = some group ↔ StartsGroup group content rest := by
  have hbracket : (rest.head?.any fun token =>
      token.value = .openParen || token.value = .openBracket) = true ↔
        ∃ t ∈ rest.head?, t.value = .openParen ∨ t.value = .openBracket := by
    simp [Option.any_eq_true]
  -- no text is both keywords
  have hkeyword : ([Group.parallel, .loop].find? fun group =>
      sameLetters content group.keyword.toList) = some group ↔
        sameLetters content group.keyword.toList = true := by
    constructor
    · exact fun h => by simpa using List.find?_some h
    · intro h
      cases group with
      | parallel => exact List.find?_cons_of_pos h
      | loop =>
        have hother : ¬ sameLetters content Group.parallel.keyword.toList = true := by
          intro hboth
          rw [sameLetters, beq_iff_eq] at h hboth
          exact absurd (hboth.symm.trans h) (by decide)
        simp only [List.find?_cons, h, hother]
  unfold TokenReader.group?
  split
  · next hfollows => exact hkeyword.trans ⟨fun h => ⟨h, hbracket.1 hfollows⟩, fun h => h.1⟩
  · next hfollows => exact ⟨fun h => absurd h (by simp), fun h => absurd (hbracket.2 h.2) hfollows⟩

/-- A text begins no group exactly if it is no keyword in front of a bracket. -/
theorem group?_eq_none_iff {content : List Char} {rest : List (Spanned Token)} :
    TokenReader.group? content rest.head? = none ↔ ∀ group, ¬ StartsGroup group content rest := by
  rw [Option.eq_none_iff_forall_ne_some]
  exact forall_congr' fun group => not_congr group?_eq_some_iff

/-- What is known about a run of separators. -/
def runOf (seps : List (Spanned Token)) : Option Bool :=
  if seps.isEmpty then none else some (hasMerge seps)

/-- A run of separators is one, and says whether it merges. -/
theorem runOf_eq_some_iff {seps : List (Spanned Token)} {merges : Bool} :
    runOf seps = some merges ↔ seps ≠ [] ∧ hasMerge seps = merges := by
  cases seps <;> simp [runOf]

/-- **The longest run of separators is read.** -/
theorem separatorRun_append {seps rest : List (Spanned Token)} (hseps : AreSeparators seps)
    (hrest : ∀ t ∈ rest.head?, t.value.isSeparator = false) :
    TokenReader.separatorRun (seps ++ rest) = (runOf seps, rest) := by
  induction seps with
  | nil =>
    cases rest with
    | nil => rfl
    | cons t rest =>
      rw [List.nil_append, TokenReader.separatorRun, hrest t rfl]
      rfl
  | cons t seps ih =>
    obtain ⟨ht, hseps⟩ := List.forall_mem_cons.1 hseps
    rw [List.cons_append, TokenReader.separatorRun, if_pos ht, ih hseps]
    cases seps <;> simp [runOf, hasMerge]

/-- Tokens start with a run of separators. -/
theorem exists_separators (ts : List (Spanned Token)) :
    ∃ seps rest, ts = seps ++ rest ∧ AreSeparators seps ∧
      ∀ t ∈ rest.head?, t.value.isSeparator = false := by
  induction ts with
  | nil => exact ⟨[], [], rfl, List.forall_mem_nil _, by simp⟩
  | cons t ts ih =>
    by_cases ht : t.value.isSeparator = true
    · obtain ⟨seps, rest, rfl, hseps, hrest⟩ := ih
      exact ⟨t :: seps, rest, rfl, List.forall_mem_cons.2 ⟨ht, hseps⟩, hrest⟩
    · exact ⟨[], t :: ts, rfl, List.forall_mem_nil _, by simpa using ht⟩

/-- Separators behind further items belong to them. -/
theorem Links.Derives.trailing {seps ts us rest : List (Spanned Token)} (links : Links)
    (h : links.Derives ts us) (hus : us = seps ++ rest) (hseps : AreSeparators seps) :
    links.Derives ts rest := by
  cases links with
  | nil =>
    cases h with
    | nil hbefore =>
      rw [hus, ← List.append_assoc]
      exact .nil (List.forall_mem_append.2 ⟨hbefore, hseps⟩)
  | next merges label item links =>
    cases h with
    | next hbefore hne hlabel hitem hlinks =>
      exact .next hbefore hne hlabel hitem (Links.Derives.trailing links hlinks hus hseps)

/-- Separators behind a chain may belong to it. -/
theorem Chain.Derives.trailing {chain : Chain} {seps ts rest : List (Spanned Token)}
    (h : chain.Derives ts (seps ++ rest)) (hseps : AreSeparators seps) : chain.Derives ts rest := by
  cases h with
  | start hlabel hitem hlinks => exact .start hlabel hitem (hlinks.trailing _ rfl hseps)

/-! ## Where a derivation starts and how much it takes -/

/-- The token is the first of an item. -/
def Token.startsItem : Token → Bool
  | .text _ | .quoted _ => true
  | _ => false

/-- An item begins with a token that starts items. -/
theorem Item.Derives.head {item : Item} {ts rest : List (Spanned Token)}
    (h : item.Derives ts rest) : ∃ t us, ts = t :: us ∧ t.value.startsItem = true := by
  cases h with
  | quoted => exact ⟨_, _, rfl, rfl⟩
  | text => exact ⟨_, _, rfl, rfl⟩
  | parallel => exact ⟨_, _, rfl, rfl⟩
  | loop => exact ⟨_, _, rfl, rfl⟩

/-- A chain begins with an item or with a label. -/
theorem Chain.Derives.head {chain : Chain} {ts rest : List (Spanned Token)}
    (h : chain.Derives ts rest) :
    ∃ t us, ts = t :: us ∧ (t.value.startsItem = true ∨ t.value = .openBracket) := by
  cases h with
  | start hlabel hitem =>
    cases hlabel with
    | none =>
      obtain ⟨t, us, rfl, ht⟩ := hitem.head
      exact ⟨t, us, rfl, Or.inl ht⟩
    | some => exact ⟨_, _, rfl, Or.inr rfl⟩

theorem DerivesLabel.length_le {label : Option BranchLabel} {ts rest : List (Spanned Token)}
    (h : DerivesLabel label ts rest) : rest.length ≤ ts.length := by
  cases h with
  | none => exact Nat.le_refl _
  | some => simp only [List.length_cons]; omega

/-! What is behind a part is no longer than the whole, by recursion on the tree. -/

mutual

/-- **An item takes at least one token.** -/
theorem Item.Derives.length_lt (item : Item) {ts rest : List (Spanned Token)}
    (h : item.Derives ts rest) : rest.length < ts.length := by
  cases item with
  | step => cases h <;> simp
  | parallel lanes =>
    cases h with
    | parallel _ hlanes =>
      have hle := Lanes.Derives.length_le lanes hlanes
      simp only [List.length_cons]
      omega
  | loop _ body =>
    cases h with
    | loop _ hlabel hbody =>
      obtain ⟨hseps, hchain⟩ := hbody
      have hle := hlabel.length_le
      have hle' := Chain.Derives.length_le body hchain
      simp only [List.length_cons, List.length_append] at hle hle' ⊢
      omega

/-- A chain gives back no more tokens than it was given. -/
theorem Chain.Derives.length_le (chain : Chain) {ts rest : List (Spanned Token)}
    (h : chain.Derives ts rest) : rest.length ≤ ts.length := by
  cases chain with
  | start label item links =>
    cases h with
    | start hlabel hitem hlinks =>
      have hle := hlabel.length_le
      have hlt := Item.Derives.length_lt item hitem
      have hle' := Links.Derives.length_le links hlinks
      omega

theorem Links.Derives.length_le (links : Links) {ts rest : List (Spanned Token)}
    (h : links.Derives ts rest) : rest.length ≤ ts.length := by
  cases links with
  | nil =>
    cases h with
    | nil => simp
  | next merges label item links =>
    cases h with
    | next _ _ hlabel hitem hlinks =>
      have hle := hlabel.length_le
      have hlt := Item.Derives.length_lt item hitem
      have hle' := Links.Derives.length_le links hlinks
      simp only [List.length_append]
      omega

theorem Lanes.Derives.length_le (lanes : Lanes) {ts rest : List (Spanned Token)}
    (h : lanes.Derives ts rest) : rest.length ≤ ts.length := by
  cases lanes with
  | last lane =>
    cases h with
    | last hlane =>
      obtain ⟨hseps, hchain⟩ := hlane
      have hle := Chain.Derives.length_le lane hchain
      simp only [List.length_cons, List.length_append] at hle ⊢
      omega
  | cons lane lanes =>
    cases h with
    | cons hlane hlanes =>
      obtain ⟨hseps, hchain⟩ := hlane
      have hle := Chain.Derives.length_le lane hchain
      have hle' := Lanes.Derives.length_le lanes hlanes
      simp only [List.length_cons, List.length_append] at hle ⊢
      omega

end

end Flowchart.Flow
