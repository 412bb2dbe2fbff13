import TypedQuery.Proofs.ElaborationSound
import TypedQuery.Proofs.Relabelling
import TypedQuery.Proofs.StandardFunctions
/-!
Laws that compilation keeps at every node.

Most laws of graphs say something about the properties and the members only, so most constructs
keep them for no reason of their own. A law of this kind is checked once for each way in which a
property or a member gets into a graph, and once for the constants.
-/
namespace TypedQuery

namespace Expr

/-- Nodes without a property, a member or a value. -/
def isPlain : Expr → Bool
  | .parameter _ | .binary .. | .convert .. | .typeIs .. | .newArray .. | .lambda .. | .quote _ =>
    true
  | _ => false

end Expr

namespace Setting

/-- A law of nodes that nothing in a setting breaks: it says nothing about plain nodes, it holds
of constants with a literal and of what becomes of constants, and it holds wherever a property
or a member is put in. -/
structure Keeps (s : Setting) (law : Expr → Prop) : Prop where
  plain : ∀ e : Expr, e.isPlain = true → law e
  constant : ∀ v : Value, v.Writable → law (.constant v)
  changed : ∀ v w : Value, (v.Writable → w.Writable) → law (.constant v) → law (.constant w)
  items : ∀ (t : Ty) (vs : List Value), (∀ v ∈ vs, law (.constant v)) →
    law (.constant (.array t vs))
  property : ∀ (e : Expr) (name : String) (t : Ty), s.model.property? e.type name = some t →
    law (.property e name t)
  lookup : ∀ (e key : Expr) (name : String) (t value : Ty),
    s.hierarchy.instance? .dictionary t = some [.string, value] → key.type = .string →
    law (.callOn (.property e name t) (.instantiate Catalogue.dictionaryGet [.string, value] [])
      [key])
  search : ∀ value array : Expr, array.type = .array value.type →
    law (.call (.instantiate Catalogue.enumerableContains [] [value.type]) [array, value])
  access : ∀ (mapping : Mapping) (e : Expr) (member : Member), mapping ∈ s.registry.mappings →
    mapping.member.kind.isProperty = true →
    mapping.member.bindDeclaring s.hierarchy e.type = .ok member → law (.memberAccess e member)
  callOn : ∀ (mapping : Mapping) (e : Expr) (member : Member) (us : List Part) (b : Bindings),
    mapping ∈ s.registry.mappings → mapping.member.hasReceiver = true →
    mapping.member.bindDeclaring s.hierarchy e.type = .ok member →
    Fitted s.hierarchy member.template.params us (.ofMember member) b →
    law (.callOn e (b.instantiate member) (us.map Part.graph))
  call : ∀ (mapping : Mapping) (us : List Part) (b : Bindings),
    mapping ∈ s.registry.mappings → mapping.member.hasReceiver = false →
    Fitted s.hierarchy mapping.member.template.params us (.ofMember mapping.member) b →
    law (.call (b.instantiate mapping.member) (us.map Part.graph))

namespace Keeps

variable {s : Setting} {law : Expr → Prop} (hs : s.Keeps law)

include hs

theorem parameter (p : Param) : (Expr.parameter p).Everywhere law :=
  Expr.everywhere_iff.mpr ⟨hs.plain _ rfl, by simp [Expr.children]⟩

theorem literal {v : Value} (h : v.Writable) : (Expr.constant v).Everywhere law :=
  Expr.everywhere_iff.mpr ⟨hs.constant v h, by simp [Expr.children]⟩

theorem keyword {name : String} {e : Expr} (h : s.keyword? name = some e) : e.Everywhere law := by
  cases Setting.keyword?_eq_some_iff.mp h with
  | this => exact hs.parameter _
  | true | false => exact hs.literal .bool
  | null => exact hs.literal .null

theorem dressed {e e' : Expr} (hd : Expr.Dressed e e') (he : e.Everywhere law) :
    e'.Everywhere law := by
  induction hd with
  | self => exact he
  | constant hvw =>
    exact Expr.everywhere_iff.mpr ⟨hs.changed _ _ hvw he.root, by simp [Expr.children]⟩
  | convert _ ih =>
    exact Expr.everywhere_iff.mpr ⟨hs.plain _ rfl, by simpa [Expr.children] using ih he⟩

theorem combine {h : Hierarchy} {op : BinaryOp} {l r e : Expr} (hl : l.Everywhere law)
    (hr : r.Everywhere law) (he : Expr.combine h op l r = .ok e) : e.Everywhere law := by
  obtain ⟨l', r', t, rfl, hl', hr'⟩ := Expr.dressed_combine he
  refine Expr.everywhere_iff.mpr ⟨hs.plain _ rfl, ?_⟩
  simpa [Expr.children] using ⟨hs.dressed hl' hl, hs.dressed hr' hr⟩

theorem arrayOf {expected : Option Ty} {items : List Expr} {e : Expr}
    (hitems : ∀ item ∈ items, item.Everywhere law) (he : Expr.arrayOf expected items = .ok e) :
    e.Everywhere law := by
  obtain ⟨t, _, _, rfl | ⟨values, rfl, rfl⟩⟩ := Expr.arrayOf_eq_ok he
  · exact Expr.everywhere_iff.mpr ⟨hs.plain _ rfl, hitems⟩
  · refine Expr.everywhere_iff.mpr ⟨hs.items t values fun v hv => ?_, by simp [Expr.children]⟩
    exact (hitems _ (List.mem_map_of_mem hv)).root

end Keeps
end Setting

namespace Query

variable {s : Setting} {q : Query} {scope : List Param} {receiver : Option Expr}
  {expected : Option Ty} {n m : Nat} {e : Expr}

/-- A law that a setting keeps holds everywhere in what is compiled. -/
theorem Elaborates.everywhere {law : Expr → Prop} (hs : s.Keeps law)
    (h : Elaborates s q scope receiver expected n e m)
    (hreceiver : ∀ base ∈ receiver, base.Everywhere law) : e.Everywhere law := by
  induction h with
  | keyword hk => exact hs.keyword hk
  | param => exact hs.parameter _
  | ownProperty _ _ ht =>
    refine Expr.everywhere_iff.mpr ⟨hs.property _ _ _ ht, ?_⟩
    simpa [Expr.children] using hs.parameter _
  | property ht =>
    refine Expr.everywhere_iff.mpr ⟨hs.property _ _ _ ht, ?_⟩
    simpa [Expr.children] using hreceiver
  | @indexer _ _ _ receiver _ _ _ _ _ _ ht hd _ hkey ih =>
    refine Expr.everywhere_iff.mpr ⟨hs.lookup _ _ _ _ _ hd hkey, ?_⟩
    refine List.forall_mem_cons.mpr ⟨?_, by simpa using ih (by simp)⟩
    refine Expr.everywhere_iff.mpr ⟨hs.property _ _ _ ht, ?_⟩
    simp only [Expr.children, List.mem_singleton, forall_eq]
    cases receiver with
    | none => exact hs.parameter _
    | some base => exact hreceiver base rfl
  | path _ _ ihl ihr =>
    exact ihr fun base hbase => Option.some.inj hbase ▸ ihl hreceiver
  | chained _ ih => exact ih (by simp)
  | isIn _ _ htype ihl ihr =>
    refine Expr.everywhere_iff.mpr ⟨hs.search _ _ htype, ?_⟩
    simpa [Expr.children] using ⟨ihr (by simp), ihl (by simp)⟩
  | operator _ _ he ihl ihr => exact hs.combine (ihl (by simp)) (ihr (by simp)) he
  | isofThis | castThis =>
    exact Expr.everywhere_iff.mpr ⟨hs.plain _ rfl, by simpa [Expr.children] using hs.parameter _⟩
  | isof _ _ _ ih | cast _ _ _ _ ih | lambda _ _ _ ih | quoted _ ih =>
    exact Expr.everywhere_iff.mpr ⟨hs.plain _ rfl, by simpa [Expr.children] using ih (by simp)⟩
  | @access _ _ _ _ _ _ mapping u member hm _ _ _ _ _ hb hproperty ih =>
    have hmem := (Registry.mem_candidates.mp hm).1
    refine Expr.everywhere_iff.mpr ⟨hs.access mapping _ member hmem hproperty hb, ?_⟩
    simpa [Expr.children] using ih (by simp)
  | @callOn _ _ _ _ _ _ mapping u us member b hm _ _ _ _ _ hon hb hf _ _ ihu ihus =>
    have hmem := (Registry.mem_candidates.mp hm).1
    refine Expr.everywhere_iff.mpr ⟨hs.callOn mapping _ member us b hmem hon hb hf, ?_⟩
    refine List.forall_mem_cons.mpr ⟨ihu (by simp), List.forall_mem_map.mpr fun v hv => ?_⟩
    exact ihus v hv (by simp)
  | @call _ _ _ _ _ _ mapping us b hm _ _ _ hon hf _ _ ih =>
    have hmem := (Registry.mem_candidates.mp hm).1
    refine Expr.everywhere_iff.mpr ⟨hs.call mapping us b hmem hon hf, ?_⟩
    exact List.forall_mem_map.mpr fun v hv => ih v hv (by simp)
  | array _ _ _ he ih =>
    exact hs.arrayOf (List.forall_mem_map.mpr fun v hv => ih v hv (by simp)) he
  | @number text scope expected n e he =>
    obtain ⟨_, hread, rfl⟩ := numberConstant_eq_ok.mp he
    exact hs.literal (NumberLiteral.writable_valueFor hread expected)
  | string => exact hs.literal .string
  | guid => exact hs.literal .guid
  | dateTime => exact hs.literal .dateTime

/-- A law that looks neither at numbers nor at lambdas holds everywhere in a complete graph if it
does in what the query elaborates to. -/
theorem everywhere_of_compile {law : Expr → Prop} {registry : Registry} {model : Model}
    {this : Param} {params outer : List Param} {graph : Expr}
    (hlambda : ∀ ps e, law (.lambda ps e)) (hrenumber : ∀ f e, law e → law (e.renumber f))
    (helaborates : ∀ {scope n e m},
      Elaborates ⟨registry, model, this⟩ q scope none none n e m → e.Everywhere law)
    (h : q.compile registry model this params outer = .ok graph) : graph.Everywhere law := by
  obtain ⟨body, hbody, rfl⟩ := compile_eq_ok.mp h
  obtain ⟨m, hmeaning⟩ := bodyFrom_eq_ok.mp hbody
  have hwords := (helaborates (elaborates_of_meaning q hmeaning)).renumber
    (idOf (this :: params ++ outer)) (hrenumber _)
  exact Expr.everywhere_iff.mpr ⟨hlambda _ _, by simpa [Expr.children] using hwords⟩

end Query
end TypedQuery
