import Mathlib.Data.List.Chain
import Mathlib.Data.List.Dedup
import Mathlib.Data.List.Perm.Subperm
import SyntaxGraph.Schema.Document

/-!
# The chain of bases

From a kind of node one goes on to its base, from there to the base of the base, and stops where
there is no base or where it was met before. The names met so far differ, and each is the base of
the one before it; one round of the walk adds a name and keeps this. All of them are declared as a
base somewhere, so the walk ends whatever the declarations look like, and as it stops for no other
reason, there is only one list it can give.
-/

namespace SyntaxGraph.Schema.Document

variable {doc : Document} {name : String}

/-! ### The base of a kind of node -/

/-- The first of some things that is called `n`. -/
def IsFirstNamed (nameOf : α → String) (xs : List α) (n : String) (x : α) : Prop :=
  ∃ before after, xs = before ++ x :: after ∧ nameOf x = n ∧ ∀ y ∈ before, nameOf y ≠ n

/-- The base of a kind of node: that of the first concrete node of the name if it has one, else that
of the first abstract one if it has one, else that of the first predefined one. -/
inductive HasBase (doc : Document) (n b : String) : Prop
  | concrete (t : Template) (first : IsFirstNamed (·.name) doc.nodes n t) (base : t.base = some b)
  | abstract (noConcrete : ∀ t, IsFirstNamed (·.name) doc.nodes n t → t.base = none)
      (a : AbstractNode) (first : IsFirstNamed (·.name) doc.abstractNodes n a)
      (base : a.base = some b)
  | predefined (noConcrete : ∀ t, IsFirstNamed (·.name) doc.nodes n t → t.base = none)
      (noAbstract : ∀ a, IsFirstNamed (·.name) doc.abstractNodes n a → a.base = none)
      (p : PredefinedNode) (first : IsFirstNamed (·.name) doc.predefined n p)
      (base : p.base = some b)

theorem find?_name_iff {nameOf : α → String} {xs : List α} {n : String} {x : α} :
    xs.find? (nameOf · == n) = some x ↔ IsFirstNamed nameOf xs n x := by
  simp only [List.find?_eq_some_iff_append, beq_iff_eq, Bool.not_eq_true', beq_eq_false_iff_ne]
  constructor
  · rintro ⟨hname, before, after, hxs, hbefore⟩
    exact ⟨before, after, hxs, hname, hbefore⟩
  · rintro ⟨before, after, hxs, hname, hbefore⟩
    exact ⟨hname, before, after, hxs, hbefore⟩

theorem baseOf?_eq_some_iff {b : String} : doc.baseOf? name = some b ↔ doc.HasBase name b := by
  simp only [baseOf?, abstractNode?, Option.or_eq_some_iff, Option.bind_eq_some_iff,
    Option.bind_eq_none_iff, find?_name_iff]
  constructor
  · rintro (⟨t, ht, hb⟩ | ⟨hnone, ⟨a, ha, hb⟩ | ⟨hnone', p, hp, hb⟩⟩)
    · exact .concrete t ht hb
    · exact .abstract hnone a ha hb
    · exact .predefined hnone hnone' p hp hb
  · rintro (⟨t, ht, hb⟩ | ⟨hnone, a, ha, hb⟩ | ⟨hnone, hnone', p, hp, hb⟩)
    · exact .inl ⟨t, ht, hb⟩
    · exact .inr ⟨hnone, .inl ⟨a, ha, hb⟩⟩
    · exact .inr ⟨hnone, .inr ⟨hnone', p, hp, hb⟩⟩

/-! ### The rounds of the walk -/

theorem ancestorsFrom_of_none {chain : List String} (h : doc.baseOf? name = none) :
    doc.ancestorsFrom chain name = chain := by
  rw [ancestorsFrom]
  split <;> simp_all

theorem ancestorsFrom_of_mem {chain : List String} {b : String} (h : doc.baseOf? name = some b)
    (hb : b ∈ chain) : doc.ancestorsFrom chain name = chain := by
  rw [ancestorsFrom]
  split <;> simp_all

theorem ancestorsFrom_of_notMem {chain : List String} {b : String} (h : doc.baseOf? name = some b)
    (hb : b ∉ chain) : doc.ancestorsFrom chain name = doc.ancestorsFrom (chain ++ [b]) b := by
  rw [ancestorsFrom]
  split <;> simp_all

/-- The names in `chain` differ and are the bases that one meets on the way from `name` to
`current`. -/
structure IsWalk (doc : Document) (name : String) (chain : List String) (current : String) :
    Prop where
  nodup : chain.Nodup
  links : (name :: chain).IsChain fun x b => doc.baseOf? x = some b
  last : (name :: chain).getLast? = some current

theorem isWalk_nil (doc : Document) (name : String) : doc.IsWalk name [] name :=
  ⟨List.nodup_nil, List.isChain_singleton name, rfl⟩

/-- One round: a base that is new goes to the end. -/
theorem IsWalk.concat {chain : List String} {current b : String} (h : doc.IsWalk name chain current)
    (hb : doc.baseOf? current = some b) (hnew : b ∉ chain) : doc.IsWalk name (chain ++ [b]) b where
  nodup := List.nodup_append.2 ⟨h.nodup, by simp, by
    rintro x hx y hy rfl
    exact hnew (List.mem_singleton.1 hy ▸ hx)⟩
  links := by
    rw [← List.cons_append, List.isChain_append]
    refine ⟨h.links, List.isChain_singleton b, fun x hx y hy => ?_⟩
    rw [h.last, Option.mem_some_iff] at hx
    rw [List.head?_singleton, Option.mem_some_iff] at hy
    rw [← hx, ← hy, hb]
  last := by rw [← List.cons_append, List.getLast?_concat]

/-- All rounds: the walk goes on until there is no base or the base was met before. -/
theorem IsWalk.ancestorsFrom {chain : List String} {current : String}
    (h : doc.IsWalk name chain current) :
    ∃ final, doc.IsWalk name (doc.ancestorsFrom chain current) final ∧
      ∀ b ∈ doc.baseOf? final, b ∈ doc.ancestorsFrom chain current := by
  induction chain, current using ancestorsFrom.induct doc with
  | case1 chain current hnone =>
    rw [ancestorsFrom_of_none hnone]
    exact ⟨current, h, by simp [hnone]⟩
  | case2 chain current b hb hmem =>
    rw [ancestorsFrom_of_mem hb hmem]
    exact ⟨current, h, by simpa [hb] using hmem⟩
  | case3 chain current b hb hnew _ ih =>
    rw [ancestorsFrom_of_notMem hb hnew]
    exact ih (h.concat hb hnew)

/-- A walk that cannot go on is the one that is taken, from any of its names on. -/
theorem IsWalk.ancestorsFrom_eq {chain rest : List String} {current final : String}
    (h : doc.IsWalk name (chain ++ rest) final) (hend : ∀ b ∈ doc.baseOf? final, b ∈ chain ++ rest)
    (hcurrent : (name :: chain).getLast? = some current) :
    doc.ancestorsFrom chain current = chain ++ rest := by
  induction rest generalizing chain current with
  | nil =>
    rw [List.append_nil] at h hend ⊢
    obtain rfl : final = current := Option.some.inj (h.last.symm.trans hcurrent)
    cases hb : doc.baseOf? final with
    | none => exact ancestorsFrom_of_none hb
    | some b => exact ancestorsFrom_of_mem hb (hend b hb)
  | cons b rest ih =>
    have hlinks := h.links
    rw [← List.cons_append, List.isChain_append] at hlinks
    have hb : doc.baseOf? current = some b := hlinks.2.2 current hcurrent b rfl
    have hnew : b ∉ chain := fun hmem =>
      (List.nodup_append.1 h.nodup).2.2 b hmem b List.mem_cons_self rfl
    have happend : chain ++ b :: rest = chain ++ [b] ++ rest := List.append_cons chain b rest
    rw [happend] at h hend
    rw [ancestorsFrom_of_notMem hb hnew, happend]
    exact ih h hend (by rw [← List.cons_append, List.getLast?_concat])

/-! ### How long the walk takes -/

/-- The walk as far as it comes in `n` rounds; nothing if it is not over then. -/
def ancestorsWithin (doc : Document) : Nat → List String → String → Option (List String)
  | 0, _, _ => none
  | n + 1, chain, name =>
    match doc.baseOf? name with
    | none => some chain
    | some b => if b ∈ chain then some chain else ancestorsWithin doc n (chain ++ [b]) b

theorem length_le_length_ancestorsFrom (doc : Document) (chain : List String) (name : String) :
    chain.length ≤ (doc.ancestorsFrom chain name).length := by
  induction chain, name using ancestorsFrom.induct doc with
  | case1 chain name hnone => rw [ancestorsFrom_of_none hnone]
  | case2 chain name b hb hmem => rw [ancestorsFrom_of_mem hb hmem]
  | case3 chain name b hb hnew _ ih =>
    rw [ancestorsFrom_of_notMem hb hnew]
    exact (by simp : chain.length ≤ (chain ++ [b]).length).trans ih

/-- Each round but the last one adds a name. -/
theorem ancestorsWithin_eq (chain : List String) (name : String) (n : Nat) :
    doc.ancestorsWithin n chain name =
      if (doc.ancestorsFrom chain name).length < chain.length + n then
        some (doc.ancestorsFrom chain name)
      else none := by
  induction chain, name using ancestorsFrom.induct doc generalizing n with
  | case1 chain name hnone =>
    rw [ancestorsFrom_of_none hnone]
    cases n <;> simp [ancestorsWithin, hnone]
  | case2 chain name b hb hmem =>
    rw [ancestorsFrom_of_mem hb hmem]
    cases n <;> simp [ancestorsWithin, hb, hmem]
  | case3 chain name b hb hnew _ ih =>
    rw [ancestorsFrom_of_notMem hb hnew]
    cases n with
    | zero =>
      have hlength := length_le_length_ancestorsFrom doc (chain ++ [b]) b
      rw [List.length_append] at hlength
      rw [ancestorsWithin, if_neg (by omega)]
    | succ n =>
      have hcount : (chain ++ [b]).length + n = chain.length + (n + 1) := by
        rw [List.length_append, List.length_singleton]
        omega
      simp only [ancestorsWithin, hb, if_neg hnew, ih, hcount]

/-- A circle that does not lead back to the start is left in the third round. -/
example :
    let doc : Document := {
      nodes := [{ name := "A", base := some "B", fields := [] }]
      abstractNodes := [⟨"B", some "C", [], none⟩]
      predefined := [⟨"C", some "B"⟩] }
    doc.ancestorsWithin 2 [] "A" = none ∧ doc.ancestorsWithin 3 [] "A" = some ["B", "C"] := by
  decide

theorem mem_bases_of_isChain {chain : List String}
    (h : (name :: chain).IsChain fun x b => doc.baseOf? x = some b) :
    ∀ b ∈ chain, b ∈ doc.bases := by
  induction chain generalizing name with
  | nil => simp
  | cons b chain ih =>
    rw [List.isChain_cons_cons] at h
    exact List.forall_mem_cons.2 ⟨mem_bases_of_baseOf? h.1, ih h.2⟩

/-! ### The chain -/

/-- What the chain of bases of a kind of node is: no name comes twice; the first one is the base of
the kind, and each further one is the base of the one before it; and the last one has no base or one
that was met before. -/
structure IsBaseChain (doc : Document) (name : String) (chain : List String) : Prop where
  nodup : chain.Nodup
  head?_eq : chain.head? = doc.baseOf? name
  next : chain.IsChain fun x b => doc.baseOf? x = some b
  ends : ∀ x ∈ chain.getLast?, ∀ b ∈ doc.baseOf? x, b ∈ chain

theorem isBaseChain_iff {chain : List String} :
    doc.IsBaseChain name chain ↔
      ∃ final, doc.IsWalk name chain final ∧ ∀ b ∈ doc.baseOf? final, b ∈ chain := by
  cases chain with
  | nil =>
    constructor
    · intro h
      exact ⟨name, isWalk_nil doc name, by simp [← h.head?_eq]⟩
    · rintro ⟨final, hwalk, hend⟩
      obtain rfl : name = final := Option.some.inj hwalk.last
      have hnone : doc.baseOf? name = none :=
        Option.eq_none_iff_forall_not_mem.2 fun b hb => List.not_mem_nil (hend b hb)
      exact ⟨hwalk.nodup, hnone.symm, List.isChain_nil, by simp⟩
  | cons b chain =>
    constructor
    · intro h
      obtain ⟨final, hfinal⟩ :=
        Option.isSome_iff_exists.1 (List.getLast?_isSome.2 (List.cons_ne_nil b chain))
      refine ⟨final, ⟨h.nodup, ?_, ?_⟩, h.ends final hfinal⟩
      · exact List.isChain_cons_cons.2 ⟨h.head?_eq.symm, h.next⟩
      · rw [List.getLast?_cons_cons, hfinal]
    · rintro ⟨final, hwalk, hend⟩
      have hlast := hwalk.last
      rw [List.getLast?_cons_cons] at hlast
      obtain ⟨hfirst, hnext⟩ := List.isChain_cons_cons.1 hwalk.links
      refine ⟨hwalk.nodup, hfirst.symm, hnext, fun x hx => ?_⟩
      obtain rfl : final = x := Option.some.inj (hlast.symm.trans hx)
      exact hend

theorem isBaseChain_iff_eq {chain : List String} :
    doc.IsBaseChain name chain ↔ chain = doc.ancestors name := by
  rw [isBaseChain_iff]
  constructor
  · rintro ⟨final, hwalk, hend⟩
    have hall : doc.ancestorsFrom [] name = [] ++ chain := hwalk.ancestorsFrom_eq hend rfl
    exact hall.symm
  · rintro rfl
    exact (isWalk_nil doc name).ancestorsFrom

/-- **The walk along the bases ends and goes as far as it can**, whatever the declarations are. It
gives the chain of bases, and there is no other; it takes one round for each name of the chain and
one more, and there are no more names than are declared as a base. -/
theorem ancestors_exact (doc : Document) (name : String) :
    (∀ x b, doc.baseOf? x = some b ↔ doc.HasBase x b) ∧
    (∀ chain, doc.IsBaseChain name chain ↔ chain = doc.ancestors name) ∧
    (∀ n, doc.ancestorsWithin n [] name =
      if (doc.ancestors name).length < n then some (doc.ancestors name) else none) ∧
    (doc.ancestors name).length ≤ doc.bases.dedup.length := by
  refine ⟨fun _ _ => baseOf?_eq_some_iff, fun _ => isBaseChain_iff_eq, fun n => ?_, ?_⟩
  · rw [ancestorsWithin_eq, List.length_nil, Nat.zero_add]
    rfl
  · obtain ⟨final, hwalk, -⟩ := isBaseChain_iff.1 (isBaseChain_iff_eq.2 rfl)
    have hbases : doc.ancestors name ⊆ doc.bases.dedup := fun b hb =>
      List.mem_dedup.2 (mem_bases_of_isChain hwalk.links b hb)
    exact (hwalk.nodup.subperm hbases).length_le

end SyntaxGraph.Schema.Document
