import Mathlib.Data.List.Infix
import SyntaxGraph.CommandLine.Extras
import SyntaxGraph.Proofs.Tree.Json

/-!
# Splitting extra parameters off

Arguments are read from left to right, one or two at a time, but what an argument is can be told
without the reading: it is an option if it starts with `--extra-`, the value of one if it stands
right after an option and does not start with a dash, and kept otherwise. This is so because an
option starts with a dash and is never taken for a value; so the reading may start afresh at every
option. The last option of a key counts, and what is kept has no options any more.
-/

namespace SyntaxGraph

/-! ### Filling a table -/

namespace Table

variable (entries : List (String × α))

theorem lookup_foldl_assign (t : List (String × α)) (key : String) :
    (entries.foldl (fun t e => assign e.1 e.2 t) t).lookup key =
      (entries.reverse.lookup key).or (t.lookup key) := by
  induction entries generalizing t with
  | nil => simp
  | cons e entries ih =>
    rw [List.foldl_cons, ih, lookup_assign, List.reverse_cons, List.lookup_append, Option.or_assoc]
    obtain ⟨name, entry⟩ := e
    congr 1
    by_cases hkey : key = name
    · simp [hkey]
    · have hne : (key == name) = false := by simpa using hkey
      simp [hkey, List.lookup_cons, hne]

theorem mem_keys_foldl_assign (t : List (String × α)) (key : String) :
    key ∈ (entries.foldl (fun t e => assign e.1 e.2 t) t).map (·.1) ↔
      key ∈ t.map (·.1) ∨ key ∈ entries.map (·.1) := by
  induction entries generalizing t with
  | nil => simp
  | cons e entries ih =>
    rw [List.foldl_cons, ih, keys_assign, List.map_cons, List.mem_cons, ← or_assoc]
    refine or_congr_left ?_
    split
    · rename_i hmem
      exact ⟨.inl, fun h => h.elim id fun h => h ▸ hmem⟩
    · rw [List.mem_append, List.mem_singleton]

theorem nodup_keys_foldl_assign {t : List (String × α)} (h : (t.map (·.1)).Nodup) :
    ((entries.foldl (fun t e => assign e.1 e.2 t) t).map (·.1)).Nodup := by
  induction entries generalizing t with
  | nil => exact h
  | cons e entries ih =>
    refine ih ?_
    rw [keys_assign]
    split
    · exact h
    · rename_i hnew
      refine List.nodup_append.2 ⟨h, by simp, ?_⟩
      rintro k hk l hl rfl
      exact hnew (List.mem_singleton.1 hl ▸ hk)

end Table

namespace CommandLine

/-! ### Reading arguments -/

/-- The option of a key: the key after `--extra-`. -/
def optionOf (key : String) : String :=
  String.ofList (extraMark ++ key.toList)

theorem toList_optionOf (key : String) : (optionOf key).toList = extraMark ++ key.toList :=
  String.toList_ofList

theorem isDashed_optionOf (key : String) : isDashed (optionOf key) = true := by
  rw [isDashed, toList_optionOf]
  rfl

theorem extraKey?_eq_some_iff {arg key : String} :
    extraKey? arg = some key ↔ arg = optionOf key := by
  rw [extraKey?, ← String.toList_inj, toList_optionOf]
  constructor
  · intro h
    split at h
    · rename_i hmark
      rw [← Option.some.inj h, String.toList_ofList]
      exact List.prefix_append_drop (List.isPrefixOf_iff_prefix.1 hmark)
    · cases h
  · intro h
    rw [h, if_pos (List.isPrefixOf_iff_prefix.2 (List.prefix_append _ _)), List.drop_left,
      String.ofList_toList]

theorem extraKey?_optionOf (key : String) : extraKey? (optionOf key) = some key :=
  extraKey?_eq_some_iff.2 rfl

theorem extraKey?_of_isDashed {arg : String} (h : isDashed arg = false) : extraKey? arg = none := by
  rw [Option.eq_none_iff_forall_ne_some]
  intro key hkey
  rw [extraKey?_eq_some_iff.1 hkey, isDashed_optionOf] at h
  exact Bool.noConfusion h

theorem optionOf_inj {key key' : String} : optionOf key = optionOf key' ↔ key = key' := by
  rw [← extraKey?_eq_some_iff, extraKey?_optionOf, Option.some_inj]

variable {arg : String} {rest : List String}

theorem pieces_kept (h : extraKey? arg = none) :
    pieces (arg :: rest) = .kept arg :: pieces rest := by
  cases rest <;> simp [pieces, h]

theorem pieces_flag (key : String) (h : ∀ next ∈ rest.head?, isDashed next = true) :
    pieces (optionOf key :: rest) = .extra key none :: pieces rest := by
  cases rest with
  | nil => simp [pieces, extraKey?_optionOf]
  | cons next rest => simp [pieces, extraKey?_optionOf, h next rfl]

theorem pieces_value (key : String) {value : String} (h : isDashed value = false) :
    pieces (optionOf key :: value :: rest) = .extra key (some value) :: pieces rest := by
  simp [pieces, extraKey?_optionOf, h]

@[simp] theorem kept?_kept (arg : String) : (Piece.kept arg).kept? = some arg := rfl

@[simp] theorem kept?_extra (key : String) (value : Option String) :
    (Piece.extra key value).kept? = none := rfl

@[simp] theorem parameter?_kept (arg : String) : (Piece.kept arg).parameter? = none := rfl

@[simp] theorem parameter?_extra (key : String) (value : Option String) :
    (Piece.extra key value).parameter? = some (key, value.getD "true") := rfl

/-- Arguments are read as one that is kept, an option without a value, or one with a value, and then
the rest. -/
@[elab_as_elim]
theorem pieces_induction {motive : List String → Prop} (nil : motive [])
    (kept : ∀ arg rest, extraKey? arg = none → motive rest → motive (arg :: rest))
    (flag : ∀ key rest, (∀ next ∈ rest.head?, isDashed next = true) → motive rest →
      motive (optionOf key :: rest))
    (value : ∀ key value rest, isDashed value = false → motive rest →
      motive (optionOf key :: value :: rest))
    (args : List String) : motive args := by
  induction args using pieces.induct with
  | case1 => exact nil
  | case2 arg key hkey =>
    obtain rfl := extraKey?_eq_some_iff.1 hkey
    exact flag key [] (by simp) nil
  | case3 arg hkey => exact kept arg [] hkey nil
  | case4 arg next rest key hkey hnext ih =>
    obtain rfl := extraKey?_eq_some_iff.1 hkey
    exact flag key (next :: rest) (by simpa using hnext) ih
  | case5 arg next rest key hkey hnext ih =>
    obtain rfl := extraKey?_eq_some_iff.1 hkey
    exact value key next rest (by simpa using hnext) ih
  | case6 arg next rest hkey ih => exact kept arg (next :: rest) hkey ih

/-- The reading may start afresh at an argument that starts with a dash. -/
theorem pieces_append {before after : List String}
    (h : ∀ next ∈ after.head?, isDashed next = true) :
    pieces (before ++ after) = pieces before ++ pieces after := by
  induction before using pieces_induction with
  | nil => rfl
  | kept arg rest hkey ih =>
    rw [List.cons_append, pieces_kept hkey, pieces_kept hkey, ih, List.cons_append]
  | flag key rest hrest ih =>
    have hnext : ∀ next ∈ (rest ++ after).head?, isDashed next = true := by
      cases rest with
      | nil => exact h
      | cons next rest => exact hrest
    rw [List.cons_append, pieces_flag key hnext, pieces_flag key hrest, ih, List.cons_append]
  | value key value rest hvalue ih =>
    rw [List.cons_append, List.cons_append, pieces_value key hvalue, pieces_value key hvalue, ih,
      List.cons_append]

/-- An option takes the argument after it if this does not start with a dash. -/
theorem pieces_option (key : String) (args : List String) :
    ∃ rest, rest <:+ args ∧ pieces (optionOf key :: args) =
      .extra key (args.head?.filter (!isDashed ·)) :: pieces rest := by
  cases args with
  | nil => exact ⟨[], List.suffix_rfl, pieces_flag key (by simp)⟩
  | cons next rest =>
    cases hnext : isDashed next with
    | true =>
      refine ⟨next :: rest, List.suffix_rfl, ?_⟩
      rw [pieces_flag key (by simpa using hnext)]
      simp [Option.filter, hnext]
    | false =>
      refine ⟨rest, List.suffix_cons next rest, ?_⟩
      rw [pieces_value key hnext]
      simp [Option.filter, hnext]

/-! ### Positions -/

/-- An option stands at the position: an argument that starts with `--extra-`. -/
def OptionAt (args : List String) (i : Nat) : Prop :=
  ∃ arg ∈ args[i]?, "--extra-".toList <+: arg.toList

/-- A value stands at the position: an argument right after an option that does not start with a
dash. -/
def ValueAt (args : List String) : Nat → Prop
  | 0 => False
  | i + 1 => OptionAt args i ∧ ∃ arg ∈ args[i + 1]?, arg.toList.head? ≠ some '-'

/-- What stands at the position is neither an option nor the value of one. -/
def KeptAt (args : List String) (i : Nat) : Prop :=
  ¬OptionAt args i ∧ ¬ValueAt args i

instance (args : List String) (i : Nat) : Decidable (OptionAt args i) :=
  inferInstanceAs (Decidable (∃ arg ∈ args[i]?, _))

instance (args : List String) : (i : Nat) → Decidable (ValueAt args i)
  | 0 => inferInstanceAs (Decidable False)
  | i + 1 => inferInstanceAs (Decidable (OptionAt args i ∧ ∃ arg ∈ args[i + 1]?, _))

instance (args : List String) (i : Nat) : Decidable (KeptAt args i) :=
  inferInstanceAs (Decidable (_ ∧ _))

theorem optionAt_iff {args : List String} {i : Nat} :
    OptionAt args i ↔ ∃ key, args[i]? = some (optionOf key) := by
  constructor
  · rintro ⟨arg, harg, cs, hcs⟩
    refine ⟨String.ofList cs, ?_⟩
    have hkey : arg = optionOf (String.ofList cs) := by
      rw [← String.toList_inj, toList_optionOf, String.toList_ofList]
      exact hcs.symm
    rwa [← hkey]
  · rintro ⟨key, hkey⟩
    exact ⟨optionOf key, hkey, key.toList, (toList_optionOf key).symm⟩

theorem optionAt_zero : OptionAt (arg :: rest) 0 ↔ extraKey? arg ≠ none := by
  rw [optionAt_iff, Option.ne_none_iff_exists']
  simp only [List.getElem?_cons_zero, Option.some_inj, extraKey?_eq_some_iff]

theorem not_optionAt_of_valueAt {args : List String} {i : Nat} (h : ValueAt args i) :
    ¬OptionAt args i := by
  intro hoption
  obtain ⟨key, hkey⟩ := optionAt_iff.1 hoption
  cases i with
  | zero => exact h
  | succ i =>
    obtain ⟨-, arg, harg, hdash⟩ := h
    obtain rfl : optionOf key = arg := by simpa [hkey] using harg
    have hmark := isDashed_optionOf key
    rw [isDashed, beq_iff_eq] at hmark
    exact hdash hmark

/-- Behind an argument without a value nothing changes. -/
theorem keptAt_cons_succ (h : ¬ValueAt (arg :: rest) 1) (i : Nat) :
    KeptAt (arg :: rest) (i + 1) ↔ KeptAt rest i := by
  cases i with
  | zero => exact and_congr_right fun _ => iff_of_true h not_false
  | succ i => exact Iff.rfl

/-! ### What is kept -/

/-- What stands at the positions of a class, in order. -/
def pick (P : Nat → Prop) [DecidablePred P] (xs : List α) : List α :=
  (xs.zipIdx.filter fun x => P x.2).map (·.1)

theorem pick_cons (P : Nat → Prop) [DecidablePred P] (x : α) (xs : List α) :
    pick P (x :: xs) = (if P 0 then [x] else []) ++ pick (fun i => P (i + 1)) xs := by
  have hrest : ((xs.zipIdx 1).filter fun x => P x.2).map (·.1) = pick (fun i => P (i + 1)) xs := by
    rw [pick, List.zipIdx_succ, List.filter_map, List.map_map]
    rfl
  rw [pick, List.zipIdx_cons, List.filter_cons]
  split <;> simp_all

theorem pick_congr {P Q : Nat → Prop} [DecidablePred P] [DecidablePred Q] (h : ∀ i, P i ↔ Q i)
    (xs : List α) : pick P xs = pick Q xs := by
  simp only [pick, h]

theorem filterMap_kept?_pieces (args : List String) :
    (pieces args).filterMap Piece.kept? = pick (KeptAt args) args := by
  induction args using pieces_induction with
  | nil => rfl
  | kept arg rest hkey ih =>
    have hoption : ¬OptionAt (arg :: rest) 0 := fun h => optionAt_zero.1 h hkey
    have hvalue : ¬ValueAt (arg :: rest) 1 := fun h => hoption h.1
    rw [pieces_kept hkey, List.filterMap_cons_some (kept?_kept arg), ih, pick_cons,
      if_pos ⟨hoption, not_false⟩, pick_congr (keptAt_cons_succ hvalue), List.singleton_append]
  | flag key rest hrest ih =>
    have hoption : OptionAt (optionOf key :: rest) 0 := optionAt_iff.2 ⟨key, rfl⟩
    have hvalue : ¬ValueAt (optionOf key :: rest) 1 := by
      rintro ⟨-, next, hnext, hdash⟩
      rw [List.getElem?_cons_succ, ← List.head?_eq_getElem?] at hnext
      exact hdash (by simpa [isDashed] using hrest next hnext)
    rw [pieces_flag key hrest, List.filterMap_cons_none rfl, ih, pick_cons,
      if_neg fun h => h.1 hoption, pick_congr (keptAt_cons_succ hvalue), List.nil_append]
  | value key value rest hdash ih =>
    have hoption : OptionAt (optionOf key :: value :: rest) 0 := optionAt_iff.2 ⟨key, rfl⟩
    have hvalue : ValueAt (optionOf key :: value :: rest) 1 :=
      ⟨hoption, value, rfl, by simpa [isDashed] using hdash⟩
    have hnext : ¬ValueAt (value :: rest) 1 :=
      fun h => optionAt_zero.1 h.1 (extraKey?_of_isDashed hdash)
    have hrest : ∀ i, KeptAt (optionOf key :: value :: rest) (i + 1 + 1) ↔ KeptAt rest i :=
      keptAt_cons_succ hnext
    rw [pieces_value key hdash, List.filterMap_cons_none rfl, ih, pick_cons,
      if_neg fun h => h.1 hoption, pick_cons, if_neg fun h => h.2 hvalue, pick_congr hrest,
      List.nil_append, List.nil_append]

/-! ### The parameters -/

/-- The keys with their values in the order of the options. -/
def parameters (args : List String) : List (String × String) :=
  (pieces args).filterMap Piece.parameter?

theorem mem_keys_parameters_iff {args : List String} {key : String} :
    key ∈ (parameters args).map (·.1) ↔ optionOf key ∈ args := by
  rw [parameters]
  induction args using pieces_induction with
  | nil => simp [pieces]
  | kept arg rest hkey ih =>
    have hne : optionOf key ≠ arg := by
      rintro rfl
      simp [extraKey?_optionOf] at hkey
    rw [pieces_kept hkey, List.filterMap_cons_none rfl, ih, List.mem_cons, or_iff_right hne]
  | flag other rest hrest ih =>
    rw [pieces_flag other hrest, List.filterMap_cons_some (parameter?_extra other _),
      List.map_cons, List.mem_cons, ih, List.mem_cons, optionOf_inj]
  | value other value rest hdash ih =>
    have hne : optionOf key ≠ value := by
      rintro rfl
      simp [isDashed_optionOf] at hdash
    rw [pieces_value other hdash, List.filterMap_cons_some (parameter?_extra other _),
      List.map_cons, List.mem_cons, ih, List.mem_cons, List.mem_cons, optionOf_inj]
    exact or_congr_right (or_iff_right hne).symm

/-- The last option of a key decides. -/
theorem lookup_parameters {key : String} {after : List String} (before : List String)
    (h : optionOf key ∉ after) :
    (parameters (before ++ optionOf key :: after)).reverse.lookup key =
      some ((after.head?.filter (!isDashed ·)).getD "true") := by
  have hdash : ∀ next ∈ (optionOf key :: after).head?, isDashed next = true := by
    simp [isDashed_optionOf]
  obtain ⟨rest, hrest, hpieces⟩ := pieces_option key after
  have hnone : (parameters rest).reverse.lookup key = none := by
    refine Table.lookup_of_notMem ?_
    rw [List.map_reverse, List.mem_reverse, mem_keys_parameters_iff]
    exact fun hmem => h (hrest.subset hmem)
  rw [parameters] at hnone
  rw [parameters, pieces_append hdash, hpieces, List.filterMap_append, List.reverse_append,
    List.filterMap_cons_some (parameter?_extra key _), List.reverse_cons, List.lookup_append,
    List.lookup_append, hnone]
  simp

/-- The last option of a key, told by its position. -/
theorem lookup_extras {args : List String} {key : String} {i : Nat}
    (hi : args[i]? = some (optionOf key)) (hlast : ∀ j, i < j → args[j]? ≠ some (optionOf key)) :
    (split args).extras.lookup key =
      some ((args[i + 1]?.filter (!isDashed ·)).getD "true") := by
  obtain ⟨hlt, hget⟩ := List.getElem?_eq_some_iff.1 hi
  have hargs : args = args.take i ++ optionOf key :: args.drop (i + 1) := by
    rw [← hget, List.getElem_cons_drop, List.take_append_drop]
  have hafter : optionOf key ∉ args.drop (i + 1) := by
    intro hmem
    obtain ⟨k, hk⟩ := List.mem_iff_getElem?.1 hmem
    rw [List.getElem?_drop] at hk
    exact hlast (i + 1 + k) (by omega) hk
  have hparameters := lookup_parameters (args.take i) hafter
  rw [← hargs, List.head?_drop] at hparameters
  have hfill := Table.lookup_foldl_assign (parameters args) [] key
  rwa [hparameters, Option.some_or] at hfill

/-! ### What is left to split off -/

theorem extraKey?_of_mem_kept {args : List String} :
    ∀ arg ∈ (split args).kept, extraKey? arg = none := by
  simp only [split]
  induction args using pieces_induction with
  | nil => simp [pieces]
  | kept arg rest hkey ih =>
    rw [pieces_kept hkey, List.filterMap_cons_some (kept?_kept arg)]
    exact List.forall_mem_cons.2 ⟨hkey, ih⟩
  | flag key rest hrest ih =>
    rwa [pieces_flag key hrest, List.filterMap_cons_none rfl]
  | value key value rest hdash ih =>
    rwa [pieces_value key hdash, List.filterMap_cons_none rfl]

/-- Without options everything is kept. -/
theorem split_of_no_option {args : List String} (h : ∀ arg ∈ args, extraKey? arg = none) :
    split args = ⟨args, []⟩ := by
  have hpieces : pieces args = args.map .kept := by
    induction args with
    | nil => rfl
    | cons arg args ih =>
      rw [List.forall_mem_cons] at h
      rw [pieces_kept h.1, ih h.2, List.map_cons]
  simp [split, hpieces, List.filterMap_map, Function.comp_def]

/-! ### The split -/

/-- Arguments are split by what stands at their positions: what is kept are the kept arguments in
order; each key of an option is there once and no other; and a key has the value after its last
option, or `true` if this one has none. -/
structure SplitsByPosition (args : List String) (s : Split) : Prop where
  kept_eq : s.kept = pick (KeptAt args) args
  nodup_keys : (s.extras.map (·.1)).Nodup
  mem_keys_iff : ∀ key : String,
    key ∈ s.extras.map (·.1) ↔ ∃ i : Nat, args[i]? = some (optionOf key)
  lookup_eq : ∀ (key : String) (i : Nat), args[i]? = some (optionOf key) →
    (∀ j, i < j → args[j]? ≠ some (optionOf key)) →
    s.extras.lookup key = if ValueAt args (i + 1) then args[i + 1]? else some "true"

theorem splitsByPosition_split (args : List String) : SplitsByPosition args (split args) where
  kept_eq := filterMap_kept?_pieces args
  nodup_keys := Table.nodup_keys_foldl_assign _ List.nodup_nil
  mem_keys_iff key := by
    have hkeys := Table.mem_keys_foldl_assign (parameters args) [] key
    rw [List.map_nil, or_iff_right List.not_mem_nil, mem_keys_parameters_iff] at hkeys
    exact hkeys.trans List.mem_iff_getElem?
  lookup_eq key i hi hlast := by
    have hoption : OptionAt args i := optionAt_iff.2 ⟨key, hi⟩
    rw [lookup_extras hi hlast]
    cases hnext : args[i + 1]? with
    | none => simp [ValueAt, hnext]
    | some value =>
      by_cases hdash : value.toList.head? = some '-' <;>
        simp [ValueAt, hoption, hnext, isDashed, Option.filter, hdash]

/-- **Extra parameters are split off without loss.** Nothing is both an option and a value; what is
kept and the parameters are told by what stands at the positions of the arguments; and there is
nothing more to split off from what is kept. -/
theorem split_exact (args : List String) :
    (∀ i, ¬(OptionAt args i ∧ ValueAt args i)) ∧ SplitsByPosition args (split args) ∧
      split (split args).kept = ⟨(split args).kept, []⟩ :=
  ⟨fun _ h => not_optionAt_of_valueAt h.2 h.1, splitsByPosition_split args,
    split_of_no_option extraKey?_of_mem_kept⟩

example : split ["a", "--extra-k", "--extra-k", "", "--extra-", "-v", "b", "--extra-k"] =
    ⟨["a", "-v", "b"], [("k", "true"), ("", "true")]⟩ := by
  decide +kernel

end CommandLine

end SyntaxGraph
