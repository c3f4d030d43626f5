import NativeBinding.Proofs.Grammar.Patterns

/-!
The grammar of declaration files. A rule is the language of what may stand right below its
nonterminal, and a derivation is a tree in which every node follows its rule; its tokens are the
sentence it derives. A forest is a list of derivations that stand for a word of some language: what
the operators of rules build, forests build in the same way.
-/

namespace NativeBinding.Grammar

open scoped Computability

inductive Nonterminal
  | start | item | itemBody | attrs | outerAttr | attrMeta | attrPath | metaArgs | metaArg | lit
  | visibility | fnDef | constDef | implDef | implMember | block | retType
  | generics | genericParam | params | param | paramAttrs | paramAttr | selfParam | typedParam
  | pattern | type | refType | pathType | pathSeg | genericArgs | genericArg | tupleType | sliceType
  | implType | dynType | typeBound | inferType
  deriving DecidableEq

abbrev Form :=
  Language (Symbol Terminal Nonterminal)

def lex (t : Terminal) : Form :=
  {[.terminal t]}

def sub (n : Nonterminal) : Form :=
  {[.nonterminal n]}

def separated (mark : Terminal) (l : Form) : Form :=
  l * (lex mark * l)∗

def series (l : Form) : Form :=
  separated .comma l * maybe (lex .comma)

def Nonterminal.rule : Nonterminal → Form
  | start => (sub item)∗
  | item => sub attrs * sub itemBody
  | itemBody => sub fnDef + sub constDef + sub implDef
  | attrs => (sub outerAttr)∗
  | outerAttr =>
      lex .hash * maybe (lex .bang) * lex .lbracket * sub attrMeta * lex .rbracket +
        lex .docComment
  | attrMeta =>
      sub attrPath + sub attrPath * lex .lparen * maybe (sub metaArgs) * lex .rparen +
        sub attrPath * lex .equals * sub lit
  | attrPath => separated .colons (lex .ident)
  | metaArgs => series (sub metaArg)
  | metaArg => sub attrPath + sub attrPath * lex .equals * sub lit + sub lit
  | lit => lex .string + lex .number + lex .trueWord + lex .falseWord
  | visibility => lex .pubWord * maybe (lex .lparen * lex .ident * lex .rparen)
  | fnDef =>
      maybe (sub visibility) * maybe (lex .asyncWord) * lex .fnWord * lex .ident *
        maybe (sub generics) * lex .lparen * maybe (sub params) * lex .rparen *
        maybe (sub retType) * (lex .semicolon + sub block)
  | constDef =>
      maybe (sub visibility) * lex .constWord * lex .ident * lex .colon * sub type * lex .equals *
        lex .initializer * lex .semicolon
  | implDef =>
      lex .implWord * maybe (sub generics) * sub type * lex .lbrace * (sub implMember)∗ *
        lex .rbrace
  | implMember => sub attrs * (sub fnDef + sub constDef)
  | block => lex .lbrace * lex .rbrace
  | retType => lex .arrow * sub type
  | generics => lex .less * series (sub genericParam) * lex .greater
  | genericParam =>
      lex .lifetime * maybe (lex .colon * separated .plus (lex .lifetime)) +
        lex .ident * maybe (lex .colon * separated .plus (sub typeBound)) +
        lex .constWord * lex .ident * lex .colon * sub type
  | params => series (sub param)
  | param => sub paramAttrs * (sub selfParam + sub typedParam)
  | paramAttrs => (sub paramAttr)∗
  | paramAttr => lex .hash * lex .lbracket * sub attrMeta * lex .rbracket
  | selfParam =>
      lex .amp * maybe (lex .lifetime) * maybe (lex .mutWord) * lex .selfWord +
        maybe (lex .mutWord) * lex .selfWord
  | typedParam => sub pattern * lex .colon * sub type
  | pattern =>
      maybe (lex .mutWord) * lex .ident + lex .wildcard +
        lex .lparen * maybe (series (sub pattern)) * lex .rparen
  | type =>
      sub pathType + sub refType + sub tupleType + sub sliceType + sub implType + sub dynType +
        sub inferType
  | refType => lex .amp * maybe (lex .lifetime) * maybe (lex .mutWord) * sub type
  | pathType => separated .colons (sub pathSeg)
  | pathSeg => lex .ident * maybe (sub genericArgs)
  | genericArgs => lex .less * series (sub genericArg) * lex .greater
  | genericArg => sub type + lex .lifetime
  | tupleType => lex .lparen * maybe (series (sub type)) * lex .rparen
  | sliceType =>
      lex .lbracket * sub type * maybe (lex .semicolon * (lex .number + lex .ident)) *
        lex .rbracket
  | implType => lex .implWord * separated .plus (sub typeBound)
  | dynType => lex .dynWord * separated .plus (sub typeBound)
  | typeBound => sub pathType + lex .lifetime
  | inferType => lex .wildcard

inductive Derivation
  | lexeme (t : Token)
  | node (n : Nonterminal) (parts : List Derivation)

namespace Derivation

def symbol : Derivation → Symbol Terminal Nonterminal
  | lexeme t => .terminal t.kind
  | node n _ => .nonterminal n

mutual

def tokens : Derivation → List Token
  | .lexeme t => [t]
  | .node _ parts => tokensAll parts

def tokensAll : List Derivation → List Token
  | [] => []
  | d :: ds => d.tokens ++ tokensAll ds

end

/-- Every node follows its rule. -/
inductive Valid : Derivation → Prop
  | lexeme (t : Token) : Valid (.lexeme t)
  | node {n : Nonterminal} {parts : List Derivation} (hrule : parts.map symbol ∈ n.rule)
      (hparts : ∀ d ∈ parts, d.Valid) : Valid (.node n parts)

theorem tokensAll_append (as bs : List Derivation) :
    tokensAll (as ++ bs) = tokensAll as ++ tokensAll bs := by
  induction as with
  | nil => rfl
  | cons a as ih => rw [List.cons_append, tokensAll, ih, tokensAll, List.append_assoc]

end Derivation

/-- A text split into gaps and lexemes, and a derivation of the lexemes from the start of the
grammar. -/
structure Sentence (text : List Char) (d : Derivation) : Prop where
  splits : Splits .start text d.tokens
  start : d.symbol = .nonterminal .start
  valid : d.Valid

structure Forest (l : Form) (ds : List Derivation) : Prop where
  symbols : ds.map Derivation.symbol ∈ l
  valid : ∀ d ∈ ds, d.Valid

namespace Forest

variable {l m : Form} {as bs cs : List Derivation}

theorem lexeme {k : Terminal} (x : Lexeme k) : Forest (lex k) [.lexeme ⟨k, x⟩] where
  symbols := rfl
  valid d hd := by
    rw [List.mem_singleton.1 hd]
    exact .lexeme _

theorem node {n : Nonterminal} (h : Forest n.rule as) : Forest (sub n) [.node n as] where
  symbols := rfl
  valid d hd := by
    rw [List.mem_singleton.1 hd]
    exact .node h.symbols h.valid

theorem append (ha : Forest l as) (hb : Forest m bs) : Forest (l * m) (as ++ bs) where
  symbols := by
    rw [List.map_append]
    exact Language.append_mem_mul ha.symbols hb.symbols
  valid := List.forall_mem_append.2 ⟨ha.valid, hb.valid⟩

theorem left (h : Forest l as) : Forest (l + m) as :=
  ⟨Or.inl h.symbols, h.valid⟩

theorem right (h : Forest m as) : Forest (l + m) as :=
  ⟨Or.inr h.symbols, h.valid⟩

theorem absent : Forest (maybe l) [] :=
  ⟨nil_mem_maybe l, fun _ hd => absurd hd List.not_mem_nil⟩

theorem present (h : Forest l as) : Forest (maybe l) as :=
  ⟨mem_maybe h.symbols, h.valid⟩

theorem nil_star : Forest l∗ [] :=
  ⟨Language.nil_mem_kstar l, fun _ hd => absurd hd List.not_mem_nil⟩

theorem append_star (ha : Forest l as) (hb : Forest l∗ bs) : Forest l∗ (as ++ bs) where
  symbols := by
    rw [List.map_append]
    exact append_mem_kstar ha.symbols hb.symbols
  valid := List.forall_mem_append.2 ⟨ha.valid, hb.valid⟩

theorem star {α : Type} {f : α → List Derivation} {xs : List α}
    (h : ∀ x ∈ xs, Forest l (f x)) : Forest l∗ (xs.flatMap f) := by
  induction xs with
  | nil => exact nil_star
  | cons x xs ih =>
    rw [List.forall_mem_cons] at h
    exact append_star h.1 (ih h.2)

theorem one {mark : Terminal} (h : Forest l as) : Forest (separated mark l) as := by
  rw [← List.append_nil as]
  exact h.append nil_star

theorem more {mark : Terminal} (ha : Forest (separated mark l) as) (hb : Forest (lex mark) bs)
    (hc : Forest l cs) : Forest (separated mark l) (as ++ (bs ++ cs)) := by
  have hstep : separated mark l * (lex mark * l) ≤ separated mark l := by
    rw [separated, mul_assoc]
    exact mul_le_mul_right kstar_mul_le_kstar l
  refine ⟨?_, List.forall_mem_append.2 ⟨ha.valid, (hb.append hc).valid⟩⟩
  rw [List.map_append]
  exact Set.mem_of_mem_of_subset
    (Language.append_mem_mul ha.symbols (hb.append hc).symbols) hstep

end Forest

/-- No word of a form has a node of some kind. -/
def Free (p : Nonterminal → Bool) (l : Form) : Prop :=
  ∀ w ∈ l, ∀ n, .nonterminal n ∈ w → p n = false

namespace Free

variable {p : Nonterminal → Bool} {l m : Form}

theorem lex (t : Terminal) : Free p (lex t) := by
  rintro w rfl n hn
  cases List.mem_singleton.1 hn

theorem sub {n : Nonterminal} (h : p n = false) : Free p (sub n) := by
  rintro w rfl k hk
  cases List.mem_singleton.1 hk
  exact h

theorem add (hl : Free p l) (hm : Free p m) : Free p (l + m) := by
  rintro w (hw | hw)
  · exact hl w hw
  · exact hm w hw

theorem mul (hl : Free p l) (hm : Free p m) : Free p (l * m) := by
  intro w hw n hn
  obtain ⟨u, hu, v, hv, rfl⟩ := Language.mem_mul.1 hw
  rcases List.mem_append.1 hn with hn | hn
  · exact hl u hu n hn
  · exact hm v hv n hn

theorem star (hl : Free p l) : Free p l∗ := by
  intro w hw n hn
  obtain ⟨ws, rfl, hws⟩ := Language.mem_kstar.1 hw
  obtain ⟨v, hv, hn⟩ := List.mem_flatten.1 hn
  exact hl v (hws v hv) n hn

theorem maybe (hl : Free p l) : Free p (maybe l) := by
  rintro w (rfl | hw) n hn
  · cases hn
  · exact hl w hw n hn

theorem separated {mark : Terminal} (hl : Free p l) : Free p (separated mark l) :=
  hl.mul ((lex mark).mul hl).star

theorem series (hl : Free p l) : Free p (series l) :=
  hl.separated.mul (lex .comma).maybe

end Free

def Nonterminal.holdsDecls : Nonterminal → Bool
  | start | item | itemBody | fnDef | constDef | implDef | implMember => true
  | _ => false

abbrev Bare (l : Form) : Prop :=
  Free Nonterminal.holdsDecls l

/-- Below a declaration, or a node that holds none, there are no declarations. -/
theorem Nonterminal.bare_rule {n : Nonterminal}
    (h : n = .fnDef ∨ n = .constDef ∨ n.holdsDecls = false) : Bare n.rule := by
  cases n <;> simp only [reduceCtorEq, false_or, or_false, holdsDecls] at h
  all_goals
    rw [rule]
    repeat' first
      | exact Free.lex _
      | exact Free.sub rfl
      | apply Free.maybe
      | apply Free.series
      | apply Free.separated
      | apply Free.star
      | apply Free.add
      | apply Free.mul

end NativeBinding.Grammar
