import SqlCompose.Proofs.Numeral
import SqlCompose.Scope

/-!
Aliases are apart from each other. Different numbers give different aliases with the same seed, so
among one more numbers than there are earlier aliases one is free, and the search for the least one
succeeds. Every alias therefore differs from all earlier ones, and a position can be recovered from
the alias at it.
-/

set_option autoImplicit false
set_option relaxedAutoImplicit false

namespace SqlCompose

namespace Alias

theorem candidate_injective {seed : List Char} {first second : Nat}
    (heq : candidate seed first = candidate seed second) : first = second :=
  decimal_injective (List.append_cancel_left (String.ofList_injective heq))

/-- The search for a free number succeeds, since it tries more candidates than there are aliases. -/
theorem exists_free (earlier : List String) (seed : List Char) :
    ∃ suffix, ((List.range (earlier.length + 1)).find? fun suffix ↦
      !earlier.contains (candidate seed suffix)) = some suffix := by
  cases hfound : (List.range (earlier.length + 1)).find? fun suffix ↦
      !earlier.contains (candidate seed suffix) with
  | some suffix => exact ⟨suffix, rfl⟩
  | none =>
    have hnodup : ((List.range (earlier.length + 1)).map (candidate seed)).Nodup :=
      List.Pairwise.map _ (fun _ _ hne heq ↦ hne (candidate_injective heq)) List.nodup_range
    have htaken : (List.range (earlier.length + 1)).map (candidate seed) ⊆ earlier := by
      intro shortName hmem
      obtain ⟨suffix, hsuffix, rfl⟩ := List.mem_map.mp hmem
      simpa using List.find?_eq_none.mp hfound suffix hsuffix
    have hlength := hnodup.length_le_of_subset htaken
    rw [List.length_map, List.length_range] at hlength
    omega

theorem candidate_freeSuffix_not_mem (earlier : List String) (seed : List Char) :
    candidate seed (freeSuffix earlier seed) ∉ earlier := by
  obtain ⟨suffix, hfound⟩ := exists_free earlier seed
  have hfree := List.find?_some hfound
  rw [freeSuffix, hfound, Option.getD_some]
  simpa using hfree

/-- The aliases that are added differ from each other and from the earlier ones. -/
theorem nodup_append_allocateAfter {earlier : List String} (hearlier : earlier.Nodup)
    (tables : List String) : (earlier ++ allocateAfter earlier tables).Nodup := by
  induction tables generalizing earlier with
  | nil => rwa [allocateAfter, List.append_nil]
  | cons table rest ih =>
    have hfresh := candidate_freeSuffix_not_mem earlier (seed table)
    rw [allocateAfter]
    generalize candidate (seed table) (freeSuffix earlier (seed table)) = added at hfresh ⊢
    have hextended : (earlier ++ [added]).Nodup := by
      rw [List.nodup_append]
      refine ⟨hearlier, List.pairwise_singleton _ _, fun shortName hmem other hother ↦ ?_⟩
      rw [List.mem_singleton.mp hother]
      exact fun heq ↦ hfresh (heq ▸ hmem)
    have hall := ih hextended
    rwa [List.append_assoc] at hall

theorem length_allocateAfter (earlier tables : List String) :
    (allocateAfter earlier tables).length = tables.length := by
  induction tables generalizing earlier with
  | nil => rfl
  | cons table rest ih => rw [allocateAfter, List.length_cons, ih, List.length_cons]

theorem length_allocate (tables : List String) : (allocate tables).length = tables.length :=
  length_allocateAfter [] tables

theorem nodup_allocate (tables : List String) : (allocate tables).Nodup :=
  nodup_append_allocateAfter List.nodup_nil tables

end Alias

/-- A position is determined by the alias at it. -/
theorem Scope.position_eq_of_alias_eq {scope : Scope} (haliases : scope.aliases.Nodup)
    {first second : UInt64} (hfirst : first.toNat < scope.aliases.length)
    (hsecond : second.toNat < scope.aliases.length)
    (heq : scope.aliases.getD first.toNat "" = scope.aliases.getD second.toNat "") :
    first = second := by
  rw [List.getD_eq_getElem?_getD, List.getD_eq_getElem?_getD, List.getElem?_eq_getElem hfirst,
    List.getElem?_eq_getElem hsecond, Option.getD_some, Option.getD_some,
    List.getElem_inj haliases] at heq
  exact UInt64.toNat_inj.mp heq

end SqlCompose
