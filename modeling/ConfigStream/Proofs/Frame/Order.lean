import ConfigStream.Frame.Order
import Mathlib.Order.Bounds.Defs

/-!
# The order of ascending addresses

An order made of ascending addresses leads from each to its neighbour
(`FrameOrder.next?_ofAddresses`), that is, to the least of them that is greater
(`FrameOrder.neighbours_iff`). Neighbours are two addresses that stand side by side in the list.
Who follows the order from the least address visits all of them, and stops
(`FrameOrder.visits_ofAddresses`).
-/

namespace ConfigStream

namespace FrameOrder

/-- Of two neighbours in a list that begins with two addresses, both are these, or they are further
on. -/
theorem neighbours_cons_cons {first second address next : UInt32} {addresses : List UInt32} :
    [address, next] <:+: first :: second :: addresses ↔
      (address = first ∧ next = second) ∨ [address, next] <:+: second :: addresses := by
  rw [List.infix_cons_iff, List.cons_prefix_cons, List.cons_prefix_cons]
  simp

/-- Links made after others replace these where they begin at the same address. -/
theorem next?_foldl_insert {addresses : List UInt32} (h : addresses.Nodup) (order : FrameOrder)
    (address next : UInt32) :
    ((addresses.zip addresses.tail).foldl
        (fun order link => ⟨order.links.insert link.1 link.2⟩) order).next? address = some next ↔
      [address, next] <:+: addresses ∨
        address ∉ addresses.dropLast ∧ order.next? address = some next := by
  induction addresses generalizing order with
  | nil => simp
  | cons first addresses ih =>
      cases addresses with
      | nil => simp [List.infix_cons_iff]
      | cons second addresses =>
          obtain ⟨hfirst, hrest⟩ := List.nodup_cons.1 h
          have hinsert : (⟨order.links.insert first second⟩ : FrameOrder).next? address =
              if address = first then some second else order.next? address := by
            simp only [next?, Std.ExtTreeMap.getElem?_insert, Std.compare_eq_iff_eq,
              eq_comm (a := first)]
          rw [neighbours_cons_cons, List.dropLast_cons_cons, List.mem_cons]
          refine (ih hrest ⟨order.links.insert first second⟩).trans ?_
          rw [hinsert]
          by_cases heq : address = first
          · -- The new link is the only one from the first address.
            subst heq
            have hlast : address ∉ (second :: addresses).dropLast :=
              fun hmem => hfirst ((List.dropLast_sublist _).mem hmem)
            simp [hlast, eq_comm, or_comm]
          · simp [heq]

/-- An order made of ascending addresses leads from each to its neighbour. -/
theorem next?_ofAddresses {addresses : List UInt32} (h : addresses.Pairwise (· < ·))
    {address next : UInt32} :
    (ofAddresses addresses).next? address = some next ↔ [address, next] <:+: addresses := by
  have hnodup : addresses.Nodup := h.imp UInt32.ne_of_lt
  rw [ofAddresses, next?_foldl_insert hnodup]
  simp

/-- Neighbours in an ascending list are two addresses with none of the list between them. -/
theorem neighbours_iff {addresses : List UInt32} (h : addresses.Pairwise (· < ·))
    {address next : UInt32} :
    [address, next] <:+: addresses ↔ address ∈ addresses ∧ next ∈ addresses ∧ address < next ∧
      ∀ other ∈ addresses, ¬ (address < other ∧ other < next) := by
  constructor
  · rintro ⟨front, back, rfl⟩
    obtain ⟨hfront, -, hback⟩ := List.pairwise_append.1 h
    obtain ⟨-, hpair, hcross⟩ := List.pairwise_append.1 hfront
    have hlt : address < next := (List.pairwise_cons.1 hpair).1 next List.mem_cons_self
    refine ⟨by simp, by simp, hlt, ?_⟩
    rintro other hother ⟨hafter, hbefore⟩
    rw [List.mem_append, List.mem_append] at hother
    rcases hother with (hother | hother) | hother
    · exact UInt32.lt_asymm hafter (hcross other hother address (by simp))
    · simp only [List.mem_cons, List.mem_nil_iff, or_false] at hother
      rcases hother with rfl | rfl
      · exact UInt32.lt_irrefl _ hafter
      · exact UInt32.lt_irrefl _ hbefore
    · exact UInt32.lt_asymm hbefore (hback next (by simp) other hother)
  · rintro ⟨haddress, hnext, hlt, hnone⟩
    induction addresses with
    | nil => cases haddress
    | cons first addresses ih =>
        obtain ⟨hfirst, hrest⟩ := List.pairwise_cons.1 h
        have hlater : next ∈ addresses := by
          rcases List.mem_cons.1 hnext with rfl | hnext
          · rcases List.mem_cons.1 haddress with rfl | haddress
            · exact absurd hlt (UInt32.lt_irrefl _)
            · exact absurd hlt (UInt32.lt_asymm (hfirst address haddress))
          · exact hnext
        rcases List.mem_cons.1 haddress with rfl | haddress
        · -- The least of the later addresses is not below the next one, nor above it.
          cases addresses with
          | nil => cases hlater
          | cons second addresses =>
              have hsecond := hfirst second List.mem_cons_self
              rcases List.mem_cons.1 hlater with rfl | hfar
              · exact ⟨[], addresses, rfl⟩
              · have hbetween := (List.pairwise_cons.1 hrest).1 next hfar
                exact absurd ⟨hsecond, hbetween⟩ (hnone second (by simp))
        · exact (ih hrest haddress hlater fun other hother =>
            hnone other (List.mem_cons_of_mem _ hother)).trans (List.suffix_cons _ _).isInfix

/-- An order made of ascending addresses leads from each to the least of them that is greater. -/
theorem next?_ofAddresses_isLeast {addresses : List UInt32} (h : addresses.Pairwise (· < ·))
    {address next : UInt32} :
    (ofAddresses addresses).next? address = some next ↔
      address ∈ addresses ∧ IsLeast {other | other ∈ addresses ∧ address < other} next := by
  rw [next?_ofAddresses h, neighbours_iff h]
  constructor
  · intro hnext
    obtain ⟨haddress, hmem, hlt, hnone⟩ := hnext
    refine ⟨haddress, ⟨hmem, hlt⟩, ?_⟩
    intro other hother
    exact UInt32.not_lt.1 fun hbefore => hnone other hother.1 ⟨hother.2, hbefore⟩
  · intro hnext
    obtain ⟨haddress, ⟨hmem, hlt⟩, hleast⟩ := hnext
    refine ⟨haddress, hmem, hlt, ?_⟩
    intro other hother hbetween
    exact UInt32.not_lt.2 (hleast ⟨hother, hbetween.1⟩) hbetween.2

/-! ## Following an order -/

/-- The addresses that are visited from a first one, if there is one, by going on to the address
that follows until none does. -/
inductive Visits (order : FrameOrder) : Option UInt32 → List UInt32 → Prop where
  | stop : Visits order none []
  | step {address : UInt32} {visited : List UInt32}
      (hrest : Visits order (order.next? address) visited) :
      Visits order (some address) (address :: visited)

/-- There is one way to follow an order. -/
theorem Visits.unique {order : FrameOrder} {first : Option UInt32} {visited others : List UInt32}
    (h : Visits order first visited) (hothers : Visits order first others) : others = visited := by
  induction h generalizing others with
  | stop =>
      cases hothers with
      | stop => rfl
  | step hrest ih =>
      cases hothers with
      | step hothers => rw [ih hothers]

/-- An order made of ascending addresses leads on from one of them to the rest of the list. -/
theorem next?_of_suffix {address : UInt32} {addresses rest : List UInt32}
    (h : addresses.Pairwise (· < ·)) (hrest : address :: rest <:+ addresses) :
    (ofAddresses addresses).next? address = rest.head? := by
  cases rest with
  | nil =>
      -- All others are before the last address, so that none is greater.
      obtain ⟨front, rfl⟩ := hrest
      apply Option.eq_none_iff_forall_ne_some.2
      intro next hnext
      obtain ⟨-, hmem, hlt, -⟩ := (neighbours_iff h).1 ((next?_ofAddresses h).1 hnext)
      rcases List.mem_append.1 hmem with hfront | hlast
      · have hbefore := (List.pairwise_append.1 h).2.2 next hfront address List.mem_cons_self
        exact UInt32.lt_asymm hlt hbefore
      · obtain rfl := List.mem_singleton.1 hlast
        exact UInt32.lt_irrefl _ hlt
  | cons second rest =>
      obtain ⟨front, rfl⟩ := hrest
      exact (next?_ofAddresses h).2 ⟨front, rest, by simp⟩

/-- An order made of ascending addresses leads from the first through all of them. -/
theorem visits_ofAddresses {addresses : List UInt32} (h : addresses.Pairwise (· < ·)) :
    Visits (ofAddresses addresses) addresses.head? addresses := by
  have hsuffix {rest : List UInt32} (hrest : rest <:+ addresses) :
      Visits (ofAddresses addresses) rest.head? rest := by
    induction rest with
    | nil => exact .stop
    | cons address rest ih =>
        apply Visits.step
        rw [next?_of_suffix h hrest]
        exact ih ((List.suffix_cons address rest).trans hrest)
  exact hsuffix (List.suffix_refl addresses)

end FrameOrder

end ConfigStream
