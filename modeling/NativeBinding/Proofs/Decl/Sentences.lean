import NativeBinding.Proofs.Decl.Source
import NativeBinding.Proofs.Decl.Spelled

/-!
Parsed texts as sentences. A text that is parsed is, with its bodies masked, a sentence of the
grammar, and its declarations are what the functions and constants of the derivation spell, one for
each and in the order of the text.
-/

namespace NativeBinding

open Grammar (AttrTree BlockTree Derivation Forest ItemBody ItemTree MemberBody MemberTree
  Nonterminal)

namespace Spelled

open Grammar (nodesOf)

section

variable (attrs : List Derivation) (block : Option (List Derivation))

@[simp] theorem sitesAll_append (as bs : List Derivation) :
    sitesAll attrs block (as ++ bs) = sitesAll attrs block as ++ sitesAll attrs block bs := by
  induction as with
  | nil => rfl
  | cons a as ih => rw [List.cons_append, sitesAll, ih, sitesAll, List.append_assoc]

@[simp] theorem sitesAll_part {kind : Grammar.Terminal} (l : Grammar.Lexeme kind) :
    sitesAll attrs block l.part = [] :=
  rfl

theorem sitesAll_node (n : Nonterminal) (ds : List Derivation) :
    sitesAll attrs block (Grammar.node n ds) = sites attrs block (.node n ds) := by
  rw [Grammar.node, sitesAll, sitesAll, List.append_nil]

theorem sitesAll_flatMap {α : Type} (f : α → List Derivation) (as : List α) :
    sitesAll attrs block (as.flatMap f) = as.flatMap fun a => sitesAll attrs block (f a) := by
  induction as with
  | nil => rfl
  | cons a as ih => rw [List.flatMap_cons, sitesAll_append, ih, List.flatMap_cons]

theorem sitesAll_eq_nil {ds : List Derivation} (h : ∀ d ∈ ds, sites attrs block d = []) :
    sitesAll attrs block ds = [] := by
  induction ds with
  | nil => rfl
  | cons d ds ih =>
    rw [List.forall_mem_cons] at h
    rw [sitesAll, h.1, ih h.2, List.append_nil]

end

variable {attrs : List Derivation} {block : Option (List Derivation)}

theorem sites_eq_nil {d : Derivation} (hvalid : d.Valid)
    (hbare : ∀ n, d.symbol = .nonterminal n → n.holdsDecls = false) :
    sites attrs block d = [] := by
  induction hvalid generalizing attrs block with
  | lexeme t => rfl
  | @node n parts hrule _ ih =>
    have hn := hbare n rfl
    -- What the rule of such a node lets stand below it holds no declaration either.
    have hparts := Nonterminal.bare_rule (.inr (.inr hn)) _ hrule
    have hdecl : ¬ (n = .fnDef ∨ n = .constDef) := by
      rintro (rfl | rfl) <;> cases hn
    rw [sites, if_neg hdecl, List.nil_append]
    refine sitesAll_eq_nil _ _ fun d hd => ih d hd fun m hm => hparts m ?_
    rw [← hm]
    exact List.mem_map_of_mem hd

theorem sitesAll_eq_nil_of_forest {l : Grammar.Form} {ds : List Derivation} (h : Forest l ds)
    (hl : Grammar.Bare l) : sitesAll attrs block ds = [] :=
  sitesAll_eq_nil _ _ fun d hd => sites_eq_nil (h.valid d hd) fun n hn =>
    hl _ h.symbols n (hn ▸ List.mem_map_of_mem hd)

theorem sitesAll_memberBody (b : Option BlockTree) (as : List AttrTree) (m : MemberBody) :
    sitesAll (as.flatMap fun a => Grammar.node .outerAttr a.parts) (b.map BlockTree.parts)
      m.parts = [siteOf b as m] := by
  cases m with
  | fn f =>
    rw [MemberBody.parts, sitesAll_node, sites,
      sitesAll_eq_nil_of_forest f.forest (Nonterminal.bare_rule (.inl rfl)), List.append_nil]
    rfl
  | const c =>
    rw [MemberBody.parts, sitesAll_node, sites,
      sitesAll_eq_nil_of_forest c.forest (Nonterminal.bare_rule (.inr (.inl rfl))),
      List.append_nil]
    rfl

theorem sitesAll_attrs (as : List AttrTree) :
    sitesAll attrs block
      (Grammar.node .attrs (as.flatMap fun a => Grammar.node .outerAttr a.parts)) = [] :=
  sitesAll_eq_nil_of_forest (Grammar.forest_attrs as) (.sub rfl)

theorem sitesAll_memberTree (b : BlockTree) (m : MemberTree) :
    sitesAll attrs (some b.parts) (Grammar.node .implMember m.parts) =
      [siteOf (some b) m.attrs m.body] := by
  have hattrs : (nodesOf .attrs m.parts).flatten =
      m.attrs.flatMap fun a => Grammar.node .outerAttr a.parts := by
    cases h : m.body <;> simp [MemberTree.parts, MemberBody.parts, h]
  have hbody := sitesAll_memberBody (some b) m.attrs m.body
  rw [Option.map_some] at hbody
  rw [sitesAll_node, sites, hattrs]
  simp [MemberTree.parts, sitesAll_attrs, hbody]

theorem sitesAll_blockTree (b : BlockTree) :
    sitesAll attrs block (Grammar.node .implDef b.parts) =
      b.members.map fun m => siteOf (some b) m.attrs m.body := by
  have hgenerics : sitesAll attrs (some b.parts)
      (Grammar.maybeParts (fun g => Grammar.node .generics g.parts) b.head.generics) = [] :=
    sitesAll_eq_nil_of_forest
      (Grammar.forest_maybe (fun g => Grammar.forest_node g.forest) b.head.generics)
      (Grammar.Free.sub rfl).maybe
  have hsubject : sitesAll attrs (some b.parts) (Grammar.node .type b.head.subject.parts) = [] :=
    sitesAll_eq_nil_of_forest (Grammar.forest_node b.head.subject.forest) (.sub rfl)
  have hmembers : sitesAll attrs (some b.parts)
      (b.members.flatMap fun m => Grammar.node .implMember m.parts) =
        b.members.map fun m => siteOf (some b) m.attrs m.body := by
    simp only [sitesAll_flatMap, sitesAll_memberTree, List.map_eq_flatMap]
  have hparts : sitesAll attrs (some b.parts) b.parts =
      b.members.map fun m => siteOf (some b) m.attrs m.body := by
    rw [BlockTree.parts] at hgenerics hsubject hmembers
    simp only [BlockTree.parts, sitesAll_append, sitesAll_part, hgenerics, hsubject, hmembers,
      List.nil_append, List.append_nil]
  rw [sitesAll_node, sites]
  simpa using hparts

theorem sitesAll_itemTree (t : ItemTree) :
    sitesAll attrs none (Grammar.node .item t.parts) =
      t.members.map fun m => siteOf m.1 m.2.1 m.2.2 := by
  have hattrs : (nodesOf .attrs t.parts).flatten =
      t.attrs.flatMap fun a => Grammar.node .outerAttr a.parts := by
    simp [ItemTree.parts]
  have hbody : sitesAll (t.attrs.flatMap fun a => Grammar.node .outerAttr a.parts) none
      (Grammar.node .itemBody t.body.parts) = t.members.map fun m => siteOf m.1 m.2.1 m.2.2 := by
    rw [sitesAll_node, sites, ItemTree.members]
    cases t.body with
    | member m => simpa [ItemBody.parts] using sitesAll_memberBody none t.attrs m
    | block b => simp [ItemBody.parts, sitesAll_blockTree, Function.comp_def]
  rw [sitesAll_node, sites, hattrs]
  simp [ItemTree.parts, sitesAll_attrs, hbody]

theorem sites_fileNode (items : List ItemTree) :
    sites [] none (Grammar.fileNode items) =
      items.flatMap fun t => t.members.map fun m => siteOf m.1 m.2.1 m.2.2 := by
  rw [Grammar.fileNode, sites]
  simp [sitesAll_flatMap, sitesAll_itemTree]

end Spelled

open Spelled (decl? siteOf sites)

variable {file : Option String}

theorem SourceItem.map_decl? {t : ItemTree} {i : SourceItem}
    (h : SourceItem.ofTree file t = .ok i) :
    (t.members.map fun m => decl? file (siteOf m.1 m.2.1 m.2.2)) = i.declarations.map some := by
  simp only [Spelled.decl?_siteOf]
  exact map_toOption_of_mapM (mapM_members h)

namespace SourceFile

theorem map_decl? {items : List ItemTree} {is : List SourceItem}
    (h : items.mapM (SourceItem.ofTree file) = .ok is) :
    (sites [] none (Grammar.fileNode items)).map (decl? file) =
      (is.flatMap SourceItem.declarations).map some := by
  rw [Spelled.sites_fileNode]
  induction items generalizing is with
  | nil =>
    rw [mapM_nil_eq_ok h]
    rfl
  | cons t items ih =>
    obtain ⟨i, is', hi, his, rfl⟩ := mapM_cons_eq_ok h
    have hitem := SourceItem.map_decl? hi
    rw [List.flatMap_cons, List.map_append, ih his, List.map_map, List.flatMap_cons,
      List.map_append]
    exact congrArg (· ++ _) hitem

/-- A parsed text is a sentence, and its declarations are what the sites of a derivation spell. -/
theorem spelled_of_parse {text : String} {f : SourceFile} (h : parse text file = .ok f) :
    ∃ d, Grammar.Sentence (Body.mask text.toList) d ∧
      (sites [] none d).map (decl? file) = f.declarations.map some := by
  obtain ⟨ts, s, p, items, hreads, hfinish, htokens, hitems⟩ := exists_reads_of_parse h
  refine ⟨Grammar.fileNode items, ⟨?_, rfl, Grammar.valid_fileNode items⟩, map_decl? hitems⟩
  rw [Grammar.tokens_fileNode, htokens]
  exact hreads.splits

theorem spelled_of_free_and_member :
    let text := "#[getter] fn a(&self, x: &T) -> U { x } impl A { const B: T = 1; }"
    ∃ f, parse text = .ok f ∧ f.declarations.map Decl.name = ["a", "B"] ∧
      ∃ d, Grammar.Sentence (Body.mask text.toList) d ∧
        (sites [] none d).map (decl? none) = f.declarations.map some := by
  intro text
  have hnames : (parse text).toOption.map (·.declarations.map Decl.name) = some ["a", "B"] := by
    decide +kernel
  obtain ⟨f, hf, hnames⟩ := Option.map_eq_some_iff.1 hnames
  have hparse := eq_ok_of_toOption hf
  exact ⟨f, hparse, hnames, spelled_of_parse hparse⟩

end SourceFile

end NativeBinding
