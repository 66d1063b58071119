import Mathlib

/-!
# Forests of containers

A node carries a label and any number of containers, each of them a list of nodes again. A
forest is one container. Forests get their induction, the pre-order in which a writer emits
them, and the change of one container that a path names.
-/

namespace Fixpp.Foundation

variable {α β : Type}

inductive Rose (α : Type)
  | node (label : α) (containers : List (List (Rose α)))

namespace Rose

def label : Rose α → α
  | node a _ => a

def containers : Rose α → List (List (Rose α))
  | node _ cs => cs

@[simp] theorem label_node (a : α) (cs : List (List (Rose α))) : (node a cs).label = a := rfl

@[simp] theorem containers_node (a : α) (cs : List (List (Rose α))) :
    (node a cs).containers = cs := rfl

/-! ## Induction -/

/-- Induction over a forest: every container of its first node and the nodes behind that
one are smaller. -/
@[elab_as_elim]
theorem forest_induction {motive : List (Rose α) → Prop} (nil : motive [])
    (cons : ∀ a cs rest, (∀ c ∈ cs, motive c) → motive rest → motive (node a cs :: rest))
    (f : List (Rose α)) : motive f :=
  @Rose.rec_2 α (fun t => ∀ rest, motive rest → motive (t :: rest)) (fun cs => ∀ c ∈ cs, motive c)
    motive (fun a cs hcs rest hrest => cons a cs rest hcs hrest) (fun _ h => nomatch h)
    (fun _ _ hc hcs => List.forall_mem_cons.mpr ⟨hc, hcs⟩) nil
    (fun _ rest ht hrest => ht rest hrest) f

/-! ## Pre-order -/

section Preorder

variable (emit : α → ℕ → β) (opens : α → Bool)

mutual

/-- What a node emits: an item from its label and the number of its containers, and the
containers of a node that opens. -/
def preorderNode : Rose α → List β
  | node a cs => emit a cs.length :: if opens a then preorderContainers cs else []

/-- The items of a forest, each node before its containers. -/
def preorder : List (Rose α) → List β
  | [] => []
  | t :: rest => preorderNode t ++ preorder rest

/-- The items of containers one behind the other. -/
def preorderContainers : List (List (Rose α)) → List β
  | [] => []
  | c :: rest => preorder c ++ preorderContainers rest

end

@[simp] theorem preorder_nil : preorder emit opens [] = [] := by
  rw [preorder]

theorem preorderContainers_eq (cs : List (List (Rose α))) :
    preorderContainers emit opens cs = cs.flatMap (preorder emit opens) := by
  induction cs with
  | nil => rw [preorderContainers, List.flatMap_nil]
  | cons c cs ih => rw [preorderContainers, ih, List.flatMap_cons]

theorem preorder_cons (a : α) (cs : List (List (Rose α))) (rest : List (Rose α)) :
    preorder emit opens (node a cs :: rest) =
      emit a cs.length :: ((if opens a then cs.flatMap (preorder emit opens) else []) ++
        preorder emit opens rest) := by
  rw [preorder, preorderNode, preorderContainers_eq, List.cons_append]

end Preorder

/-! ## A property of every label -/

def labels (f : List (Rose α)) : List α := preorder (fun a _ => a) (fun _ => true) f

theorem labels_cons (a : α) (cs : List (List (Rose α))) (rest : List (Rose α)) :
    labels (node a cs :: rest) = a :: (cs.flatMap labels ++ labels rest) := by
  unfold labels
  rw [preorder_cons, if_pos rfl]

variable {f : List (Rose α)} {P : α → Prop} {path : List (ℕ × ℕ)}

theorem exists_label_of_mem_preorder (emit : α → ℕ → β) (opens : α → Bool) {x : β}
    (h : x ∈ preorder emit opens f) : ∃ a ∈ labels f, ∃ n, x = emit a n := by
  induction f using forest_induction with
  | nil =>
    cases h
  | cons a cs rest ihcs ihrest =>
    rw [labels_cons]
    rw [preorder_cons, List.mem_cons, List.mem_append] at h
    rcases h with rfl | hopen | hrest
    · exact ⟨a, List.mem_cons_self, _, rfl⟩
    · split at hopen
      · obtain ⟨c, hc, hx⟩ := List.mem_flatMap.mp hopen
        obtain ⟨b, hb, n, hn⟩ := ihcs c hc hx
        refine ⟨b, List.mem_cons_of_mem _ (List.mem_append_left _ ?_), n, hn⟩
        exact List.mem_flatMap.mpr ⟨c, hc, hb⟩
      · cases hopen
    · obtain ⟨b, hb, n, hn⟩ := ihrest hrest
      exact ⟨b, List.mem_cons_of_mem _ (List.mem_append_right _ hb), n, hn⟩

/-- Every label of the forest has the property. -/
def Everywhere (P : α → Prop) (f : List (Rose α)) : Prop := ∀ a ∈ labels f, P a

@[simp] theorem everywhere_nil (P : α → Prop) : Everywhere P [] := fun _ h => (nomatch h)

theorem everywhere_cons {a : α} {cs : List (List (Rose α))} {rest : List (Rose α)} :
    Everywhere P (node a cs :: rest) ↔
      P a ∧ (∀ c ∈ cs, Everywhere P c) ∧ Everywhere P rest := by
  unfold Everywhere
  rw [labels_cons]
  constructor
  · intro h
    refine ⟨h a List.mem_cons_self, fun c hc b hb => h b ?_, fun b hb => h b ?_⟩
    · exact List.mem_cons_of_mem _ (List.mem_append_left _ (List.mem_flatMap.mpr ⟨c, hc, hb⟩))
    · exact List.mem_cons_of_mem _ (List.mem_append_right _ hb)
  rintro ⟨ha, hcs, hrest⟩ b hb
  rcases List.mem_cons.mp hb with rfl | hb
  · exact ha
  rcases List.mem_append.mp hb with hb | hb
  · obtain ⟨c, hc, hb⟩ := List.mem_flatMap.mp hb
    exact hcs c hc b hb
  · exact hrest b hb

theorem everywhere_iff : Everywhere P f ↔
    ∀ t ∈ f, P t.label ∧ ∀ c ∈ t.containers, Everywhere P c := by
  induction f with
  | nil => simp
  | cons t rest ih =>
    obtain ⟨a, cs⟩ := t
    rw [everywhere_cons, ih, List.forall_mem_cons]
    simp only [label_node, containers_node, and_assoc]

theorem Everywhere.mono {Q : α → Prop} (hPQ : ∀ a, P a → Q a) (h : Everywhere P f) :
    Everywhere Q f := fun a ha => hPQ a (h a ha)

theorem everywhere_append {g : List (Rose α)} :
    Everywhere P (f ++ g) ↔ Everywhere P f ∧ Everywhere P g := by
  rw [everywhere_iff, List.forall_mem_append, ← everywhere_iff, ← everywhere_iff]

/-! ## The container a path names -/

/-- The container at a path: at each level the index of a node and of one of its
containers. -/
def containerAt : List (ℕ × ℕ) → List (Rose α) → Option (List (Rose α))
  | [], f => some f
  | (i, j) :: path, f => (f[i]?.bind fun t => t.containers[j]?).bind (containerAt path)

theorem containerAt_append (path path' : List (ℕ × ℕ)) (f : List (Rose α)) :
    containerAt (path ++ path') f = (containerAt path f).bind (containerAt path') := by
  induction path generalizing f with
  | nil => rfl
  | cons step path ih =>
    have hrest : containerAt (path ++ path') =
        fun f : List (Rose α) => (containerAt path f).bind (containerAt path') := funext ih
    rw [List.cons_append, containerAt, containerAt, hrest, ← Option.bind_assoc]

theorem Everywhere.containerAt {c : List (Rose α)} (h : Everywhere P f)
    (hc : Rose.containerAt path f = some c) : Everywhere P c := by
  induction path generalizing f with
  | nil =>
    cases hc
    exact h
  | cons step path ih =>
    obtain ⟨d, hd, hc⟩ := Option.bind_eq_some_iff.mp hc
    obtain ⟨t, ht, hd⟩ := Option.bind_eq_some_iff.mp hd
    exact ih ((everywhere_iff.mp h t (List.mem_of_getElem? ht)).2 d (List.mem_of_getElem? hd)) hc

variable (j : ℕ) (g : List (Rose α) → List (Rose α))

def modifyContainer : Rose α → Rose α
  | node a cs => node a (cs.modify j g)

/-- The forest with the container at a path changed; a path that names none changes
nothing. -/
def updateAt : List (ℕ × ℕ) → (List (Rose α) → List (Rose α)) → List (Rose α) → List (Rose α)
  | [], g, f => g f
  | (i, j) :: path, g, f => f.modify i (modifyContainer j (updateAt path g))

@[simp] theorem label_modifyContainer (t : Rose α) : (t.modifyContainer j g).label = t.label := by
  cases t
  rfl

@[simp] theorem containers_modifyContainer (t : Rose α) :
    (t.modifyContainer j g).containers = t.containers.modify j g := by
  cases t
  rfl

theorem forall_mem_modify {γ : Type} {P : γ → Prop} {g : γ → γ} {l : List γ} {i : ℕ}
    (h : ∀ x ∈ l, P x) (hg : ∀ x, l[i]? = some x → P (g x)) : ∀ x ∈ l.modify i g, P x := by
  intro x hx
  obtain ⟨k, hk, rfl⟩ := List.getElem_of_mem hx
  rw [List.length_modify] at hk
  rw [List.getElem_modify]
  split
  next heq =>
    subst heq
    exact hg _ (List.getElem?_eq_getElem hk)
  · exact h _ (List.getElem_mem hk)

/-- What a change keeps of the container it is made in, it keeps of the forest. -/
theorem Everywhere.updateAt {g : List (Rose α) → List (Rose α)} (h : Everywhere P f)
    (hg : ∀ c, Rose.containerAt path f = some c → Everywhere P (g c)) :
    Everywhere P (Rose.updateAt path g f) := by
  induction path generalizing f with
  | nil => exact hg f rfl
  | cons step path ih =>
    have hnodes := everywhere_iff.mp h
    refine everywhere_iff.mpr (forall_mem_modify hnodes fun t ht => ?_)
    obtain ⟨ha, hcs⟩ := hnodes t (List.mem_of_getElem? ht)
    rw [label_modifyContainer, containers_modifyContainer]
    refine ⟨ha, forall_mem_modify hcs fun c hc => ?_⟩
    refine ih (hcs c (List.mem_of_getElem? hc)) fun d hd => hg d ?_
    simp [Rose.containerAt, ht, hc, hd]

/-! ## Labels renamed -/

theorem map_modify {γ δ : Type} {g : γ → δ} {h : γ → γ} {h' : δ → δ} {l : List γ} {i : ℕ}
    (hh : ∀ x, l[i]? = some x → g (h x) = h' (g x)) :
    (l.modify i h).map g = (l.map g).modify i h' := by
  apply List.ext_getElem?
  intro k
  rw [List.getElem?_map, List.getElem?_modify, List.getElem?_modify, List.getElem?_map]
  by_cases hk : i = k
  · subst hk
    cases hx : l[i]? with
    | none => rfl
    | some x => simp [hh x hx]
  · simp [hk]

section Map

variable (g : α → β)

mutual

/-- A node with all its labels renamed. -/
def mapNode : Rose α → Rose β
  | node a cs => node (g a) (mapContainers cs)

def map : List (Rose α) → List (Rose β)
  | [] => []
  | t :: rest => mapNode t :: map rest

def mapContainers : List (List (Rose α)) → List (List (Rose β))
  | [] => []
  | c :: rest => map c :: mapContainers rest

end

theorem map_eq (f : List (Rose α)) : map g f = f.map (mapNode g) := by
  induction f with
  | nil => rw [map, List.map_nil]
  | cons t rest ih => rw [map, ih, List.map_cons]

theorem mapContainers_eq (cs : List (List (Rose α))) : mapContainers g cs = cs.map (map g) := by
  induction cs with
  | nil => rw [mapContainers, List.map_nil]
  | cons c rest ih => rw [mapContainers, ih, List.map_cons]

@[simp] theorem map_nil : map g ([] : List (Rose α)) = [] := by
  rw [map]

theorem mapNode_node (a : α) (cs : List (List (Rose α))) :
    mapNode g (node a cs) = node (g a) (cs.map (map g)) := by
  rw [mapNode, mapContainers_eq]

theorem map_cons (a : α) (cs : List (List (Rose α))) (rest : List (Rose α)) :
    map g (node a cs :: rest) = node (g a) (cs.map (map g)) :: map g rest := by
  rw [map, mapNode_node]

theorem map_append (f f' : List (Rose α)) : map g (f ++ f') = map g f ++ map g f' := by
  rw [map_eq, map_eq, map_eq, List.map_append]

theorem preorder_map {γ : Type} (emit : β → ℕ → γ) (opens : β → Bool) (f : List (Rose α)) :
    preorder emit opens (map g f) = preorder (fun a n => emit (g a) n) (fun a => opens (g a)) f := by
  induction f using forest_induction with
  | nil => rw [map_nil, preorder_nil, preorder_nil]
  | cons a cs rest ihcs ihrest =>
    have hcs : (cs.map (map g)).flatMap (preorder emit opens) =
        cs.flatMap (preorder (fun a n => emit (g a) n) fun a => opens (g a)) := by
      rw [List.flatMap_map]
      exact List.flatMap_congr ihcs
    rw [map_cons, preorder_cons, preorder_cons, hcs, ihrest, List.length_map]

/-- A change of a container and the renamed change of the renamed container. -/
theorem map_updateAt {h : List (Rose α) → List (Rose α)} {h' : List (Rose β) → List (Rose β)}
    (hh : ∀ c, containerAt path f = some c → map g (h c) = h' (map g c)) :
    map g (updateAt path h f) = updateAt path h' (map g f) := by
  induction path generalizing f with
  | nil => exact hh f rfl
  | cons step path ih =>
    rw [updateAt, updateAt, map_eq, map_eq]
    refine map_modify fun t ht => ?_
    obtain ⟨a, cs⟩ := t
    rw [modifyContainer, mapNode_node, mapNode_node, modifyContainer]
    refine congrArg (node (g a)) (map_modify fun c hc => ih fun d hd => hh d ?_)
    simp [containerAt, ht, containers_node, hc, hd]

end Map

end Rose

end Fixpp.Foundation
