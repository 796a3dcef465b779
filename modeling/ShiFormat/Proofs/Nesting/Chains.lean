import ShiFormat.Proofs.Nesting.Height
import ShiFormat.Proofs.Precedence.Depth

/-!
Accepted texts of any height. Conditions that follow one another by `else if` open no nesting level,
so a chain of them is accepted however long it is, and no bound holds for the height of its tree.
-/
namespace ShiFormat
open Grammar

/-- The tokens of `if (a) {}`. -/
def emptyIf : List Token :=
  [.fixed .ifWord, .fixed .leftParen, .named "a", .fixed .rightParen, .fixed .leftBrace,
    .fixed .rightBrace]

/-- ` else if (a) {}`, this many times. -/
def elseIfText : Nat → List Char
  | 0 => []
  | n + 1 => " else ".toList ++ ("if (a) \x7b\x7d".toList ++ elseIfText n)

def elseIfTokens : Nat → List Token
  | 0 => []
  | n + 1 => .fixed .elseWord :: (emptyIf ++ elseIfTokens n)

def elseIfChain : Nat → Alternative
  | 0 => .absent
  | n + 1 => .elseIf (.identifier (.named "a")) [] (elseIfChain n)

theorem conditions_elseIfChain (n : Nat) : (elseIfChain n).conditions = n := by
  induction n with
  | zero => rfl
  | succ n ih => simp only [elseIfChain, Alternative.conditions, ih]

theorem Lexes.emptyIf {text : List Char} {us : List Token} (h : Lexes text us) :
    Lexes ("if (a) \x7b\x7d".toList ++ text) (emptyIf ++ us) := by
  have closing : Lexes _ (.fixed .rightBrace :: us) := h.fixed rfl fun _ => rfl
  have opening : Lexes _ (.fixed .leftBrace :: _) := closing.fixed rfl fun _ => rfl
  have behind : Lexes _ (.fixed .rightParen :: _) :=
    (opening.blank (x := ' ') rfl).fixed rfl fun _ => rfl
  have test := behind.token (t := .named "a") rfl (Loose.ends (loose_cons rfl _) (.inl rfl))
  have before : Lexes _ (.fixed .leftParen :: _) := test.fixed rfl fun _ => rfl
  exact (before.blank (x := ' ') rfl).token (t := .fixed .ifWord) rfl
    (ends_before_blank (by decide) _)

theorem elseIfText_lexes (n : Nat) : Lexes (elseIfText n) (elseIfTokens n) := by
  induction n with
  | zero => exact .nil
  | succ n ih =>
    have word := (ih.emptyIf.blank (x := ' ') rfl).token (t := .fixed .elseWord) rfl
      (ends_before_blank (by decide) _)
    exact word.blank (x := ' ') rfl

theorem emptyIf_derives : Guarded 1 emptyIf (.identifier (.named "a")) [] := by
  have test : Expression 0 1 [.named "a"] (.identifier (.named "a")) :=
    .chain (.primary (.identifier rfl))
  have block : Block 1 [.fixed .leftBrace, .fixed .rightBrace] [] := .braced rfl .nil rfl
  exact .guarded rfl rfl test rfl block

/-- However long it is, the chain nests one level deep. -/
theorem elseIfTokens_derive (n : Nat) : ∃ d ≤ 1, Otherwise d (elseIfTokens n) (elseIfChain n) := by
  induction n with
  | zero => exact ⟨0, Nat.zero_le 1, .absent⟩
  | succ n ih =>
    obtain ⟨d, shallow, chain⟩ := ih
    exact ⟨max 1 d, Nat.max_le.mpr ⟨Nat.le_refl 1, shallow⟩, .elseIf rfl emptyIf_derives chain⟩

/-- `if (a) {}` and then this many further conditions. -/
def elseIfFile (n : Nat) : Node :=
  .statementList [.condition (.identifier (.named "a")) [] (elseIfChain n)]

theorem elseIfFile_height (n : Nat) : n < (elseIfFile n).height := by
  have chain := (elseIfChain n).conditions_le_height
  rw [conditions_elseIfChain] at chain
  simp only [elseIfFile, Node.height, heightOfAll]
  omega

theorem elseIfFile_accepted (n : Nat) (path : Path) :
    ∃ tree, parse path (String.ofList ("if (a) \x7b\x7d".toList ++ elseIfText n)) = .ok tree ∧
      tree.mapTokens Token.unplaced = elseIfFile n := by
  obtain ⟨d, shallow, chain⟩ := elseIfTokens_derive n
  have file := Statements.cons (.condition emptyIf_derives chain) .nil
  rw [List.append_nil] at file
  have within : max (max 1 d) 0 ≤ nestingLimit := by
    have room : 1 ≤ nestingLimit := by decide
    omega
  exact accepted_of_lexes (elseIfText_lexes n).emptyIf file within path

/-- Nothing bounds the height of the trees of accepted texts. -/
theorem height_unbounded : ¬ ∃ bound, ∀ path text tree, parse path text = .ok tree →
    tree.height ≤ bound := by
  rintro ⟨bound, bounded⟩
  let path : Path := ⟨"BUILD.shi"⟩
  obtain ⟨tree, accepted, same⟩ := elseIfFile_accepted bound path
  have low := bounded path _ tree accepted
  have high := elseIfFile_height bound
  rw [← same, Node.height_mapTokens] at high
  exact absurd low (Nat.not_le.mpr high)

end ShiFormat
