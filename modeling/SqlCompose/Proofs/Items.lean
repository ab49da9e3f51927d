import SqlCompose.Proofs.Grouping
import SqlCompose.Proofs.Lines
import Mathlib.Data.List.DropRight

/-!
Items of a line. A line lists its items between separators, but items contain separators of their
own, so only those that stand outside of all parentheses and brackets count. The tokens of an
expression are balanced: every bracket in them is closed again, and a comma stands outside of all
brackets only where a whole source is written (`Form.balanced_tokens`). They also begin and end with
neither a space nor a word that stands beside an item (`Form.solid_tokens`). Items with these two
properties are found again between their separators, in number and order
(`Token.items_separatedBy`).
-/

set_option autoImplicit false
set_option relaxedAutoImplicit false

namespace SqlCompose

namespace Token

/-! ### Splitting outside of brackets -/

/-- The number of open brackets behind a token. -/
def depthAfter (depth : Nat) : Token → Nat
  | openParen | openBracket => depth + 1
  | closeParen | closeBracket => depth - 1
  | _ => depth

/-- The parts of a token list between the separators that stand outside of all brackets. -/
def splitOutside (isSeparator : Token → Bool) (depth : Nat) : List Token → List (List Token)
  | [] => [[]]
  | token :: rest =>
    if depth = 0 ∧ isSeparator token = true then [] :: splitOutside isSeparator 0 rest
    else (splitOutside isSeparator (depthAfter depth token) rest).modifyHead (token :: ·)

/-- The tokens without spaces at either end. -/
def trimmed (tokens : List Token) : List Token :=
  (tokens.dropWhile (· == .space)).rdropWhile (· == .space)

/-- The items between separators outside of all brackets. -/
def items (separator : Token) (tokens : List Token) : List (List Token) :=
  (splitOutside (· == separator) 0 tokens).map trimmed

/-! ### Balanced tokens -/

/-- Every bracket is closed again, and what stands outside of all brackets passes a test. -/
inductive Balanced : (Token → Bool) → List Token → Prop
  | nil {test : Token → Bool} : Balanced test []
  | token {test : Token → Bool} {token : Token} (hlevel : ∀ depth, depthAfter depth token = depth)
    (htest : test token = true) : Balanced test [token]
  | append {test : Token → Bool} {before after : List Token} (hbefore : Balanced test before)
    (hafter : Balanced test after) : Balanced test (before ++ after)
  | parenthesized {test : Token → Bool} {tokens : List Token}
    (hinside : Balanced (fun _ ↦ true) tokens) : Balanced test (parenthesized tokens)
  | bracketed {test : Token → Bool} {tokens : List Token}
    (hinside : Balanced (fun _ ↦ true) tokens) :
    Balanced test (.openBracket :: (tokens ++ [.closeBracket]))

/-- Neither a comma nor a bracket. -/
def isFlat : Token → Bool
  | comma | openParen | closeParen | openBracket | closeBracket => false
  | _ => true

theorem depthAfter_of_isFlat {token : Token} (hflat : token.isFlat = true) (depth : Nat) :
    depthAfter depth token = depth := by
  cases token <;> first | rfl | cases hflat

theorem bne_of_isFlat {separator : Token} (hseparator : separator.isFlat = false) (token : Token)
    (hflat : token.isFlat = true) : (token != separator) = true := by
  rw [bne_iff_ne]
  rintro rfl
  rw [hseparator] at hflat
  cases hflat

namespace Balanced

variable {test : Token → Bool}

theorem of_isFlat (htest : ∀ token : Token, token.isFlat = true → test token = true)
    {tokens : List Token} (hflat : tokens.all isFlat = true) : Balanced test tokens := by
  induction tokens with
  | nil => exact nil
  | cons first rest ih =>
    rw [List.all_cons, Bool.and_eq_true] at hflat
    exact (token (depthAfter_of_isFlat hflat.1) (htest first hflat.1)).append (ih hflat.2)

theorem separatedBy {separator : List Token} (hseparator : Balanced test separator)
    {items : List (List Token)} (hitems : ∀ item ∈ items, Balanced test item) :
    Balanced test (separatedBy separator items) := by
  induction items with
  | nil => exact nil
  | cons item rest ih =>
    rw [List.forall_mem_cons] at hitems
    cases rest with
    | nil => exact hitems.1
    | cons next others => exact (hitems.1.append hseparator).append (ih hitems.2)

theorem commaSeparated (hcomma : test .comma = true) (hspace : test .space = true)
    {items : List (List Token)} (hitems : ∀ item ∈ items, Balanced test item) :
    Balanced test (commaSeparated items) :=
  separatedBy ((token (fun _ ↦ rfl) hcomma).append (token (fun _ ↦ rfl) hspace)) hitems

/-- Tokens that are balanced under every test are so between parentheses too; a condition may decide
whether the test has to let commas through. -/
theorem grouped {unlisted : Prop} {tokens : List Token}
    (heach : ∀ {test : Token → Bool}, (∀ token : Token, token.isFlat = true → test token = true) →
      test .comma = true ∨ unlisted → Balanced test tokens)
    (htest : ∀ token : Token, token.isFlat = true → test token = true)
    (hcomma : test .comma = true ∨ unlisted) (group : Bool) :
    Balanced test (Expr.grouped group tokens) := by
  cases group with
  | false => exact heach htest hcomma
  | true => exact parenthesized (heach (fun _ _ ↦ rfl) (.inl rfl))

end Balanced

/-! ### Splitting balanced tokens -/

section Splitting

variable {isSeparator : Token → Bool} {depth : Nat}

theorem splitOutside_cons {token : Token} (hpart : depth = 0 → isSeparator token = false)
    (rest : List Token) :
    splitOutside isSeparator depth (token :: rest) =
      (splitOutside isSeparator (depthAfter depth token) rest).modifyHead (token :: ·) := by
  refine if_neg ?_
  rintro ⟨hdepth, hseparator⟩
  rw [hpart hdepth] at hseparator
  cases hseparator

/-- What stands between an opening and a closing bracket is part of one item. -/
theorem splitOutside_enclosed {opening closing : Token} {inside : List Token}
    (hopening : depthAfter depth opening = depth + 1)
    (hclosing : depthAfter (depth + 1) closing = depth)
    (hpart : depth = 0 → isSeparator opening = false)
    (hinside : ∀ rest, splitOutside isSeparator (depth + 1) (inside ++ rest) =
      (splitOutside isSeparator (depth + 1) rest).modifyHead (inside ++ ·)) (rest : List Token) :
    splitOutside isSeparator depth (opening :: (inside ++ [closing]) ++ rest) =
      (splitOutside isSeparator depth rest).modifyHead (opening :: (inside ++ [closing]) ++ ·) := by
  rw [List.cons_append, List.append_assoc, splitOutside_cons hpart, hopening, hinside,
    List.singleton_append, splitOutside_cons (absurd · (Nat.succ_ne_zero depth)), hclosing,
    List.modifyHead_modifyHead, List.modifyHead_modifyHead]
  refine congrArg (List.modifyHead · _) (funext fun tokens ↦ ?_)
  simp

/-- Balanced tokens without separators outside of all brackets are part of one item. -/
theorem Balanced.splitOutside_append {test : Token → Bool} {tokens : List Token}
    (hbalanced : Balanced test tokens)
    (houtside : depth = 0 → ∀ token, isSeparator token = true →
      test token = false ∧ token ≠ .openParen ∧ token ≠ .openBracket) (rest : List Token) :
    splitOutside isSeparator depth (tokens ++ rest) =
      (splitOutside isSeparator depth rest).modifyHead (tokens ++ ·) := by
  induction hbalanced generalizing depth rest with
  | nil => exact (congrFun List.modifyHead_id _).symm
  | token hlevel htest =>
    rw [List.singleton_append, splitOutside_cons _, hlevel]
    · rfl
    · intro hdepth
      rw [Bool.eq_false_iff]
      intro hseparator
      have hfails := (houtside hdepth _ hseparator).1
      rw [htest] at hfails
      cases hfails
  | append hbefore hafter ihbefore ihafter =>
    rw [List.append_assoc, ihbefore houtside, ihafter houtside, List.modifyHead_modifyHead]
    refine congrArg (List.modifyHead · _) (funext fun tokens ↦ ?_)
    simp
  | parenthesized hinside ih =>
    refine splitOutside_enclosed rfl rfl (fun hdepth ↦ ?_)
      (ih (absurd · (Nat.succ_ne_zero _))) rest
    exact Bool.eq_false_iff.mpr fun hseparator ↦ (houtside hdepth _ hseparator).2.1 rfl
  | bracketed hinside ih =>
    refine splitOutside_enclosed rfl rfl (fun hdepth ↦ ?_)
      (ih (absurd · (Nat.succ_ne_zero _))) rest
    exact Bool.eq_false_iff.mpr fun hseparator ↦ (houtside hdepth _ hseparator).2.2 rfl

/-- Balanced tokens without the separator outside of all brackets are part of one item. -/
theorem Balanced.splitOutside_of_separator {test : Token → Bool} {tokens : List Token}
    (hbalanced : Balanced test tokens) {separator : Token}
    (hseparator : test separator = false ∧ separator ≠ .openParen ∧ separator ≠ .openBracket)
    (rest : List Token) :
    splitOutside (· == separator) 0 (tokens ++ rest) =
      (splitOutside (· == separator) 0 rest).modifyHead (tokens ++ ·) := by
  refine hbalanced.splitOutside_append (fun _ token htoken ↦ ?_) rest
  rw [eq_of_beq htoken]
  exact hseparator

theorem Balanced.splitOutside_eq_singleton {test : Token → Bool} {tokens : List Token}
    (hbalanced : Balanced test tokens) {separator : Token}
    (hseparator : test separator = false ∧ separator ≠ .openParen ∧ separator ≠ .openBracket) :
    splitOutside (· == separator) 0 tokens = [tokens] := by
  have hone := hbalanced.splitOutside_of_separator hseparator []
  rw [List.append_nil] at hone
  rw [hone, splitOutside, List.modifyHead_cons, List.append_nil]

theorem splitOutside_separator (separator : Token) (rest : List Token) :
    splitOutside (· == separator) 0 (separator :: rest) =
      [] :: splitOutside (· == separator) 0 rest :=
  if_pos ⟨rfl, beq_self_eq_true separator⟩

end Splitting

/-! ### Solid tokens -/

/-- The first and the last token pass a test. -/
structure Solid (test : Token → Bool) (tokens : List Token) : Prop where
  starts : tokens.head?.any test = true
  ends : tokens.getLast?.any test = true

section Ends

variable {test : Token → Bool}

theorem starts_append {before : List Token} (hstarts : before.head?.any test = true)
    (after : List Token) : (before ++ after).head?.any test = true := by
  cases before with
  | nil => cases hstarts
  | cons first rest => exact hstarts

theorem ends_append (before : List Token) {after : List Token}
    (hends : after.getLast?.any test = true) : (before ++ after).getLast?.any test = true := by
  rw [List.getLast?_append]
  cases hlast : after.getLast? with
  | none =>
    rw [hlast] at hends
    cases hends
  | some last => rwa [hlast] at hends

theorem starts_separatedBy {separator : List Token} {items : List (List Token)} (hne : items ≠ [])
    (hitems : ∀ item ∈ items, item.head?.any test = true) :
    (separatedBy separator items).head?.any test = true := by
  cases items with
  | nil => exact absurd rfl hne
  | cons item rest =>
    rw [List.forall_mem_cons] at hitems
    cases rest with
    | nil => exact hitems.1
    | cons next others => exact starts_append (starts_append hitems.1 _) _

namespace Solid

theorem mono {other : Token → Bool} (himp : ∀ token, test token = true → other token = true)
    {tokens : List Token} (hsolid : Solid test tokens) : Solid other tokens := by
  obtain ⟨hstarts, hends⟩ := hsolid
  rw [Option.any_eq_true] at hstarts hends
  constructor
  · rw [Option.any_eq_true]
    exact hstarts.imp fun token ↦ And.imp_right (himp token)
  · rw [Option.any_eq_true]
    exact hends.imp fun token ↦ And.imp_right (himp token)

theorem append {before after : List Token} (hbefore : Solid test before)
    (hafter : Solid test after) (between : List Token) :
    Solid test (before ++ between ++ after) where
  starts := starts_append (starts_append hbefore.starts between) after
  ends := ends_append _ hafter.ends

variable (hopen : test .openParen = true) (hclose : test .closeParen = true)

include hopen hclose

theorem parenthesized (tokens : List Token) : Solid test (parenthesized tokens) where
  starts := hopen
  ends := ends_append (.openParen :: tokens) hclose

theorem grouped {tokens : List Token} (hsolid : Solid test tokens) (group : Bool) :
    Solid test (Expr.grouped group tokens) := by
  cases group with
  | false => exact hsolid
  | true => exact parenthesized hopen hclose tokens

end Solid

end Ends

theorem dropWhile_of_starts {tokens : List Token}
    (hstarts : tokens.head?.any (· != .space) = true) :
    tokens.dropWhile (· == .space) = tokens := by
  cases tokens with
  | nil => rfl
  | cons first rest =>
    have hfirst : first ≠ .space := by simpa using hstarts
    exact List.dropWhile_cons_of_neg (by simpa using hfirst)

theorem trimmed_append_left {spaces : List Token} (hspaces : ∀ token ∈ spaces, token = .space)
    (tokens : List Token) : trimmed (spaces ++ tokens) = trimmed tokens := by
  rw [trimmed, List.dropWhile_append_of_pos (by simpa using hspaces), trimmed]

/-- Spaces behind an item are not part of it. -/
theorem Solid.trimmed_append {tokens spaces : List Token} (hsolid : Solid (· != .space) tokens)
    (hspaces : ∀ token ∈ spaces, token = .space) : trimmed (tokens ++ spaces) = tokens := by
  have hlast : tokens.reverse.dropWhile (· == .space) = tokens.reverse := by
    refine dropWhile_of_starts ?_
    rw [List.head?_reverse]
    exact hsolid.ends
  rw [trimmed, dropWhile_of_starts (starts_append hsolid.starts spaces), List.rdropWhile,
    List.reverse_append, List.dropWhile_append_of_pos (by simpa using hspaces), hlast,
    List.reverse_reverse]

theorem Solid.trimmed_eq {tokens : List Token} (hsolid : Solid (· != .space) tokens) :
    trimmed tokens = tokens := by
  have htrimmed := hsolid.trimmed_append (List.forall_mem_nil _)
  rwa [List.append_nil] at htrimmed

/-! ### Items between separators -/

theorem map_trimmed_modifyHead {spaces : List Token} (hspaces : ∀ token ∈ spaces, token = .space)
    (parts : List (List Token)) :
    (parts.modifyHead (spaces ++ ·)).map trimmed = parts.map trimmed := by
  cases parts with
  | nil => rfl
  | cons part rest =>
    rw [List.modifyHead_cons, List.map_cons, List.map_cons, trimmed_append_left hspaces]

theorem items_space_cons {separator : Token} (hseparator : separator ≠ .space)
    (tokens : List Token) : items separator (.space :: tokens) = items separator tokens := by
  have hsplit : splitOutside (· == separator) 0 (.space :: tokens) =
      (splitOutside (· == separator) 0 tokens).modifyHead (.space :: ·) := by
    refine splitOutside_cons (fun _ ↦ ?_) tokens
    exact beq_eq_false_iff_ne.mpr hseparator.symm
  rw [items, hsplit]
  exact map_trimmed_modifyHead (List.forall_mem_singleton.mpr rfl) _

/-- Items are found again between separators, which may have spaces around them. -/
theorem items_separatedBy (separator : Token) {test : Token → Bool}
    (hseparator : test separator = false ∧ separator ≠ .openParen ∧ separator ≠ .openBracket)
    (hspace : test .space = true) {before after : List Token}
    (hbefore : ∀ token ∈ before, token = .space) (hafter : ∀ token ∈ after, token = .space)
    {listed : List (List Token)} (hne : listed ≠ [])
    (hlisted : ∀ item ∈ listed, Balanced test item ∧ Solid (· != .space) item) :
    items separator (separatedBy (before ++ separator :: after) listed) = listed := by
  have hspaces {spaces : List Token} (hall : ∀ token ∈ spaces, token = .space) :
      Balanced test spaces := by
    induction spaces with
    | nil => exact .nil
    | cons first rest ih =>
      rw [List.forall_mem_cons] at hall
      rw [hall.1]
      exact (Balanced.token (fun _ ↦ rfl) hspace).append (ih hall.2)
  unfold items
  induction listed with
  | nil => exact absurd rfl hne
  | cons item rest ih =>
    rw [List.forall_mem_cons] at hlisted
    obtain ⟨⟨hbalanced, hsolid⟩, hrest⟩ := hlisted
    cases rest with
    | nil =>
      rw [separatedBy, hbalanced.splitOutside_eq_singleton hseparator, List.map_singleton,
        hsolid.trimmed_eq]
    | cons next others =>
      rw [separatedBy, ← List.append_assoc item, List.append_assoc, List.cons_append,
        (hbalanced.append (hspaces hbefore)).splitOutside_of_separator hseparator,
        splitOutside_separator, List.modifyHead_cons, List.append_nil, List.map_cons,
        hsolid.trimmed_append hbefore, (hspaces hafter).splitOutside_of_separator hseparator,
        map_trimmed_modifyHead hafter, ih (List.cons_ne_nil _ _) hrest]

end Token

/-! ### Expressions as items -/

/-- Neither a space nor one of the words that stand beside an item. -/
def Token.isEdge : Token → Bool
  | space | keyword .distinct | keyword .on | keyword .desc => false
  | _ => true

theorem Token.ne_space_of_isEdge (token : Token) (hedge : token.isEdge = true) :
    (token != .space) = true := by
  rw [bne_iff_ne]
  rintro rfl
  cases hedge

open Token

namespace Form

/-- Refers to all fields of a source. -/
def isWholeSource : Form → Bool
  | wholeSource _ => true
  | _ => false

/-- The tokens of a form are balanced. Outside of all brackets there may be a comma only where a
whole source is written. -/
theorem balanced_tokens (scope : Scope) (form : Form) {test : Token → Bool}
    (htest : ∀ token : Token, token.isFlat = true → test token = true)
    (hcomma : test .comma = true ∨ ∀ node ∈ form.nodes, node.isWholeSource = false) :
    Balanced test (form.tokens scope) := by
  induction form using Form.induction generalizing test with
  | column position name => exact .of_isFlat htest rfl
  | wholeSource position =>
    have hboth : test .comma = true :=
      hcomma.resolve_right fun hnone ↦ nomatch hnone _ (mem_nodes_self _)
    rw [tokens]
    split
    · unfold sourceTokens
      split
      · exact .of_isFlat htest rfl
      · refine .commaSeparated hboth (htest _ rfl) (List.forall_mem_map.mpr fun field _ ↦ ?_)
        exact .of_isFlat htest rfl
    · exact .nil
  | bareRange first last => exact .nil
  | word name => exact .of_isFlat htest rfl
  | scalar value hscalar =>
    refine .of_isFlat htest ?_
    cases value <;> rfl
  | emptyArray elementType =>
    exact (Balanced.token (fun _ ↦ rfl) (htest _ rfl)).append ((Balanced.bracketed .nil).append
      (.of_isFlat htest rfl))
  | function name arguments ih =>
    refine (Balanced.token (fun _ ↦ rfl) (htest _ rfl)).append (.parenthesized ?_)
    rw [tokensOfEach_eq_map]
    exact .commaSeparated rfl rfl (List.forall_mem_map.mpr fun argument hmem ↦
      ih argument hmem (fun _ _ ↦ rfl) (.inl rfl))
  | array first rest ih =>
    refine (Balanced.token (fun _ ↦ rfl) (htest _ rfl)).append (.bracketed ?_)
    rw [tokensOfEach_eq_map, ← List.map_cons]
    exact .commaSeparated rfl rfl (List.forall_mem_map.mpr fun element hmem ↦
      ih element hmem (fun _ _ ↦ rfl) (.inl rfl))
  | negation operand ih =>
    have hwords : Balanced test [.keyword .not, .space] := .of_isFlat htest rfl
    exact hwords.append (.parenthesized (ih (fun _ _ ↦ rfl) (.inl rfl)))
  | nullTest operand negated ih =>
    rw [nodes, List.forall_mem_cons] at hcomma
    have hoperand := Balanced.grouped ih htest (hcomma.imp_right And.right)
    refine (((hoperand _).append (.of_isFlat htest rfl)).append (.of_isFlat htest ?_)).append
      (.of_isFlat htest rfl)
    cases negated <;> rfl
  | truncation unit operand ih =>
    rw [nodes, List.forall_mem_cons] at hcomma
    have hoperand := Balanced.grouped ih htest (hcomma.imp_right And.right)
    exact (hoperand _).append (.of_isFlat htest rfl)
  | signed symbol operand ih =>
    rw [nodes, List.forall_mem_cons] at hcomma
    have hoperand := Balanced.grouped ih htest (hcomma.imp_right And.right)
    exact (Balanced.token (fun _ ↦ rfl) (htest _ rfl)).append (hoperand _)
  | equality left right negated ihleft ihright =>
    rw [nodes, List.forall_mem_cons, List.forall_mem_append] at hcomma
    have hleft := Balanced.grouped ihleft htest (hcomma.imp_right (·.2.1))
    have hright := Balanced.grouped ihright htest (hcomma.imp_right (·.2.2))
    refine ((hleft _).append (.of_isFlat htest ?_)).append (hright _)
    cases negated <;> rfl
  | membership value collection ihvalue ihcollection =>
    rw [nodes, List.forall_mem_cons, List.forall_mem_append] at hcomma
    have hvalue := Balanced.grouped ihvalue htest (hcomma.imp_right (·.2.1))
    exact ((hvalue _).append (.of_isFlat htest rfl)).append
      (.parenthesized (ihcollection (fun _ _ ↦ rfl) (.inl rfl)))
  | between value first last ihvalue ihfirst ihlast =>
    rw [nodes, List.forall_mem_cons, List.forall_mem_append, List.forall_mem_append] at hcomma
    have hvalue := Balanced.grouped ihvalue htest (hcomma.imp_right (·.2.1.1))
    have hfirst := Balanced.grouped ihfirst htest (hcomma.imp_right (·.2.1.2))
    have hlast := Balanced.grouped ihlast htest (hcomma.imp_right (·.2.2))
    exact ((((hvalue _).append (.of_isFlat htest rfl)).append (hfirst _)).append
      (.of_isFlat htest rfl)).append (hlast _)
  | quotient left right ihleft ihright =>
    rw [nodes, List.forall_mem_cons, List.forall_mem_append] at hcomma
    have hleft := Balanced.grouped ihleft htest (hcomma.imp_right (·.2.1))
    have hright := Balanced.grouped ihright htest (hcomma.imp_right (·.2.2))
    exact (((hleft _).append (.of_isFlat htest rfl)).append (hright _)).append
      (.of_isFlat htest rfl)
  | infixed symbol left right ihleft ihright =>
    rw [nodes, List.forall_mem_cons, List.forall_mem_append] at hcomma
    have hleft := Balanced.grouped ihleft htest (hcomma.imp_right (·.2.1))
    have hright := Balanced.grouped ihright htest (hcomma.imp_right (·.2.2))
    exact ((hleft _).append (.of_isFlat htest rfl)).append (hright _)

/-- The tokens of a form that can be read begin and end with neither a space nor a word that stands
beside an item. -/
theorem solid_tokens (scope : Scope) (form : Form)
    (hreadable : ∀ node ∈ form.nodes, node.IsReadable) : Solid isEdge (form.tokens scope) := by
  induction form using Form.induction with
  | column position name | word name => exact ⟨rfl, rfl⟩
  | wholeSource position | bareRange first last =>
    exact absurd (hreadable _ (mem_nodes_self _)) id
  | scalar value hscalar =>
    cases value with
    | array elements elementType => cases hscalar
    | _ => exact ⟨rfl, rfl⟩
  | emptyArray elementType => exact ⟨rfl, rfl⟩
  | function name arguments ih =>
    exact ⟨rfl, ends_append [.functionName name] (Solid.parenthesized rfl rfl _).ends⟩
  | array first rest ih =>
    exact ⟨rfl, ends_append (.keyword .array :: .openBracket :: _) rfl⟩
  | negation operand ih =>
    exact ⟨rfl, ends_append [.keyword .not, .space] (Solid.parenthesized rfl rfl _).ends⟩
  | nullTest operand negated ih =>
    rw [nodes, List.forall_mem_cons] at hreadable
    refine ⟨?_, ends_append _ rfl⟩
    rw [tokens, Expr.nullTest, List.append_assoc, List.append_assoc]
    exact starts_append ((ih hreadable.2).grouped rfl rfl _).starts _
  | truncation unit operand ih =>
    rw [nodes, List.forall_mem_cons] at hreadable
    exact ⟨starts_append ((ih hreadable.2).grouped rfl rfl _).starts _, ends_append _ rfl⟩
  | signed symbol operand ih =>
    rw [nodes, List.forall_mem_cons] at hreadable
    exact ⟨rfl, ends_append [.operator symbol] ((ih hreadable.2).grouped rfl rfl _).ends⟩
  | equality left right negated ihleft ihright =>
    rw [nodes, List.forall_mem_cons, List.forall_mem_append] at hreadable
    exact ((ihleft hreadable.2.1).grouped rfl rfl _).append
      ((ihright hreadable.2.2).grouped rfl rfl _) _
  | membership value collection ihvalue ihcollection =>
    rw [nodes, List.forall_mem_cons, List.forall_mem_append] at hreadable
    exact ((ihvalue hreadable.2.1).grouped rfl rfl _).append (.parenthesized rfl rfl _) _
  | between value first last ihvalue ihfirst ihlast =>
    rw [nodes, List.forall_mem_cons, List.forall_mem_append, List.forall_mem_append] at hreadable
    rw [tokens, Expr.betweenTest, List.append_assoc (Expr.grouped _ _),
      List.append_assoc (Expr.grouped _ _)]
    exact ((ihvalue hreadable.2.1.1).grouped rfl rfl _).append
      ((ihlast hreadable.2.2).grouped rfl rfl _) _
  | quotient left right ihleft ihright =>
    rw [nodes, List.forall_mem_cons, List.forall_mem_append] at hreadable
    rw [tokens, Expr.quotient]
    exact ⟨starts_append (starts_append (starts_append
      ((ihleft hreadable.2.1).grouped rfl rfl _).starts _) _) _, ends_append _ rfl⟩
  | infixed symbol left right ihleft ihright =>
    rw [nodes, List.forall_mem_cons, List.forall_mem_append] at hreadable
    exact ((ihleft hreadable.2.1).grouped rfl rfl _).append
      ((ihright hreadable.2.2).grouped rfl rfl _) _

theorem IsReadable.isWholeSource_eq_false {form : Form} (hreadable : form.IsReadable) :
    form.isWholeSource = false := by
  cases form with
  | wholeSource position => exact absurd hreadable id
  | _ => rfl

end Form

namespace Expr

variable {scope : Scope}

theorem balanced_written (expr : Expr) {test : Token → Bool}
    (htest : ∀ token : Token, token.isFlat = true → test token = true)
    (hcomma : test .comma = true) : Balanced test (expr.written scope) :=
  expr.form.balanced_tokens scope htest (.inl hcomma)

/-- An expression without whole sources can be an item of a list. -/
theorem item_written {expr : Expr} (hcomposable : expr.Composable scope)
    (hsources : ∀ position, source position ∉ expr.nodes) :
    Balanced (· != .comma) (expr.written scope) ∧ Solid isEdge (expr.written scope) := by
  have hreadable := isReadable_form hcomposable.2.2.2 hsources
  exact ⟨expr.form.balanced_tokens scope (bne_of_isFlat rfl) (.inr fun node hnode ↦
    (hreadable node hnode).isWholeSource_eq_false), expr.form.solid_tokens scope hreadable⟩

end Expr

/-- Items of a list are found again between commas. -/
theorem items_commaSeparated {listed : List (List Token)} (hne : listed ≠ [])
    (hlisted : ∀ item ∈ listed, Balanced (· != .comma) item ∧ Solid (· != .space) item) :
    items .comma (commaSeparated listed) = listed :=
  items_separatedBy .comma (by simp) rfl (List.forall_mem_nil _)
    (List.forall_mem_singleton.mpr rfl) hne hlisted

/-- Conditions between parentheses are found again between the words that join them. -/
theorem items_conjunction {conditions : List (List Token)} (hne : conditions ≠ [])
    (hconditions : ∀ condition ∈ conditions, Balanced (fun _ ↦ true) condition) :
    items (.keyword .and) (separatedBy [.space, .keyword .and, .space]
      (conditions.map parenthesized)) = conditions.map parenthesized := by
  have hgroups : ∀ group ∈ conditions.map parenthesized,
      Balanced (· != .keyword .and) group ∧ Solid (· != .space) group :=
    List.forall_mem_map.mpr fun condition hmem ↦
      ⟨.parenthesized (hconditions condition hmem), .parenthesized rfl rfl condition⟩
  exact items_separatedBy (.keyword .and) (by simp) rfl (List.forall_mem_singleton.mpr rfl)
    (List.forall_mem_singleton.mpr rfl) (by simpa using hne) hgroups

end SqlCompose
