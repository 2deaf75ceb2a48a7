import CrudBackend.Artifact.Router
import CrudBackend.Config.Overlay
import CrudBackend.Proofs.Names
import CrudBackend.Spec.Reading
import Mathlib.Data.List.Forall2

/-!
How endpoints are protected. Every API entry with an action becomes one handler, in order. An entry
that asks for a login or for permissions is meant to turn away callers without a login. Its handler
does so if and only if the application provides for it; where no such provider is imported, the
handler is rendered as if a context were enough.
-/

namespace CrudBackend

namespace Artifact

def Guard.permission? : Guard → Option String
  | context _ => none
  | permission p => some p

def Endpoint.permissions (h : Endpoint) : List String := h.guards.filterMap Guard.permission?

/-- The handler turns away callers that are not logged in: it depends on their context, or its
service comes from the provider that does. -/
def Endpoint.RequiresCaller (h : Endpoint) : Prop :=
  .context "get_ctx_required" ∈ h.guards ∨ h.service = .provided "provide_service" ∨
    h.service = .built (some "get_ctx_required")

structure Endpoint.Handles (h : Endpoint) (deps : ImportTarget) (a : Api) (action : Action) :
    Prop where
  path : h.path = a.path
  summary : h.summary = a.summary
  action : h.action = action
  guards : h.guards = guardsOf deps a
  service : h.service = serviceOf deps a

variable {deps : ImportTarget} {a : Api} {action : Action} {h : Endpoint}

theorem forall₂_zipWith {α β γ : Type} {R : β → γ → Prop} {f : α → β → γ}
    (hf : ∀ a b, R b (f a b)) {as : List α} {bs : List β} (hlen : as.length = bs.length) :
    List.Forall₂ R bs (as.zipWith f bs) := by
  induction bs generalizing as with
  | nil =>
    rw [List.zipWith_nil_right]
    exact .nil
  | cons b bs ih =>
    cases as with
    | nil => simp at hlen
    | cons a as => exact .cons (hf a b) (ih (by simpa using hlen))

/-- The entries with an action and the handlers go together one by one. -/
theorem forall₂_endpoints (e : Entity) (deps : ImportTarget) :
    List.Forall₂ (fun entry h => Endpoint.Handles h deps entry.1 entry.2) (actions e)
      (endpoints e deps) := by
  refine forall₂_zipWith ?_ ?_
  · intro function entry
    exact ⟨rfl, rfl, rfl, rfl, rfl⟩
  · rw [Naming.length_reserveAll, List.length_map]

theorem permissions_of_handles (hh : h.Handles deps a action) (ha : a.requiresAuth = true) :
    h.permissions = if deps.has "require_perm" then a.requiredPerms else [] := by
  have hcontext : ∀ provider : String,
      [Guard.context provider].filterMap Guard.permission? = [] := fun _ => rfl
  have hperms : (a.requiredPerms.map Guard.permission).filterMap Guard.permission? =
      a.requiredPerms := by
    rw [List.filterMap_map]
    exact List.filterMap_some
  rw [Endpoint.permissions, hh.guards, guardsOf, if_pos ha, List.filterMap_append]
  split_ifs <;> simp [hcontext, hperms]

theorem requiresCaller_iff (hh : h.Handles deps a action) (ha : a.requiresAuth = true) :
    h.RequiresCaller ↔
      deps.has "get_ctx_required" = true ∨ deps.has "provide_service" = true := by
  have hpermission : ∀ provider : String,
      Guard.context provider ∉ a.requiredPerms.map Guard.permission := by
    intro provider hmem
    obtain ⟨p, -, hp⟩ := List.mem_map.mp hmem
    cases hp
  have hguard : .context "get_ctx_required" ∈ h.guards ↔ deps.has "get_ctx_required" = true := by
    rw [hh.guards, guardsOf, if_pos ha]
    split_ifs <;> simp_all
  have hprovided : h.service = .provided "provide_service" ↔ deps.has "provide_service" = true := by
    rw [hh.service, serviceOf]
    simp only [ha, if_true]
    split_ifs <;> simp_all
  have hbuilt : h.service = .built (some "get_ctx_required") →
      deps.has "get_ctx_required" = true := by
    rw [hh.service, serviceOf]
    simp only [ha, if_true]
    split_ifs <;> simp_all
  rw [Endpoint.RequiresCaller, hguard, hprovided]
  constructor
  · rintro (h | h | h)
    · exact Or.inl h
    · exact Or.inr h
    · exact Or.inl (hbuilt h)
  · rintro (h | h)
    · exact Or.inl h
    · exact Or.inr (Or.inl h)

/-- The line of a route. -/
theorem route_mem_lines (className res : String) (h : Endpoint) :
    "@router.post(" ++ Python.quote h.path ++ ", summary=" ++ Python.quote h.summary ++
      guardsArgument h.guards ++ ")" ∈ h.lines className res := by
  simp [Endpoint.lines]

/-- The module of endpoints is made of the lines of its handlers, one for each entry with an action.
The handler of an entry that asks for a login or for permissions turns away callers without a login
if and only if one of the two providers for that is there, and it carries one guard for each
permission, in order, if the provider for that is there, and none otherwise. -/
theorem protected_entries_are_guarded (e : Entity) (l : Layout) (i : Imports) (r : RouteTemplates) :
    (∃ head, api e l i r = generated (head ++
      (endpoints e i.deps).flatMap (Endpoint.lines e.className i.res.name))) ∧
    List.Forall₂ (fun entry h =>
      h.path = entry.1.path ∧ h.action = entry.2 ∧
      (entry.1.requiresAuth = true →
        (h.RequiresCaller ↔
          i.deps.has "get_ctx_required" = true ∨ i.deps.has "provide_service" = true) ∧
        h.permissions = (if i.deps.has "require_perm" then entry.1.requiredPerms else []) ∧
        (i.deps.has "get_ctx_required" = true → i.deps.has "require_perm" = true →
          "@router.post(" ++ Python.quote entry.1.path ++ ", summary=" ++
            Python.quote entry.1.summary ++ ", dependencies=[" ++
            commaSeparated ("Depends(get_ctx_required)" :: entry.1.requiredPerms.map fun p =>
              "Depends(require_perm(" ++ Python.quote p ++ "))") ++ "])" ∈
            h.lines e.className i.res.name)))
      (actions e) (endpoints e i.deps) := by
  refine ⟨⟨_, rfl⟩, (forall₂_endpoints e i.deps).imp ?_⟩
  intro entry h hh
  refine ⟨hh.path, hh.action, fun ha =>
    ⟨requiresCaller_iff hh ha, permissions_of_handles hh ha, fun hlogin hperm => ?_⟩⟩
  have hargument : guardsArgument h.guards = ", dependencies=[" ++
      commaSeparated ("Depends(get_ctx_required)" :: entry.1.requiredPerms.map fun p =>
        "Depends(require_perm(" ++ Python.quote p ++ "))") ++ "]" := by
    rw [hh.guards, guardsOf, if_pos ha, if_pos hlogin, if_pos hperm]
    have hlogin : (Guard.context "get_ctx_required").text = "Depends(get_ctx_required)" := by decide
    rw [guardsArgument, List.map_append, List.map_map, List.map_singleton, hlogin]
    rfl
  have hroute := route_mem_lines e.className i.res.name h
  have hclose : "]" ++ ")" = "])" := by decide
  rw [hargument, hh.path, hh.summary] at hroute
  simpa only [String.append_assoc, hclose] using hroute

def guardedSpecText : String :=
  "[\x7b\"className\": \"Item\", \"tableName\": \"item\", \"moduleName\": \"shop\", " ++
    "\"apis\": [\x7b\"name\": \"update\", \"authRequired\": true\x7d]\x7d]"

def guardedUpdate : Api := ⟨"update", "update", "/update", .entity, [], true⟩

def guardedItem : Entity :=
  ⟨"Item", "item", "shop", "", "Item", [], [], [guardedUpdate], true, true⟩

/-- A configuration that provides a database session and the context of a caller, who may be
anonymous, and nothing else. -/
def bareConfigText : String :=
  "\x7b\"imports\": \x7b\"deps\": \"app.deps:get_db,get_ctx\"\x7d\x7d"

def bareImports : Imports :=
  ⟨⟨"app.models.base", "Base"⟩, ⟨"app.deps", ["get_db", "get_ctx"]⟩, ⟨"app.common.res", "Res"⟩⟩

/-- The entry asks for a login, and yet the handler depends on a context that an anonymous caller
has as well, and makes its service without one. -/
theorem unprovided_entry_is_open :
    (Spec.parse guardedSpecText).toOption = some ⟨[], [guardedItem]⟩ ∧
    ((Config.parse bareConfigText).toOption.bind fun c => c.resolveImports.toOption) =
      some bareImports ∧
    actions guardedItem = [(guardedUpdate, .update)] ∧ guardedUpdate.requiresAuth = true ∧
    ∃ h, endpoints guardedItem bareImports.deps = [h] ∧ ¬ h.RequiresCaller ∧
      h.guards = [.context "get_ctx"] ∧ h.service = .built none := by
  refine ⟨by decide +kernel, by decide +kernel, by decide +kernel, rfl, ?_⟩
  refine ⟨⟨"/update", "update", "update", .update, [.context "get_ctx"], .built none⟩,
    by decide +kernel, ?_, rfl, rfl⟩
  rintro (h | h | h)
  · exact absurd h (by decide)
  · cases h
  · cases h

end Artifact

end CrudBackend
