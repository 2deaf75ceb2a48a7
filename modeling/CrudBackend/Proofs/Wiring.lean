import CrudBackend.Proofs.Handlers
import CrudBackend.Proofs.Python.Tokens

/-!
What handlers take from the application. The guards of a handler, the parameter for its service and
the line that makes the service are read as expressions: a name of the application that stands in
one of them, outside of strings, is imported by the module. A handler that anyone may call has no
guards and refers to no provider that asks for a login, and one that asks for permissions has a
guard for each of them.
-/

namespace CrudBackend

namespace Artifact

open Python

/-! ### Reading guards -/

def guard? : List Token → Option Guard
  | [.name depends, .mark '(', .name provider, .mark ')'] =>
    if depends = "Depends" then some (.context provider) else none
  | [.name depends, .mark '(', .name check, .mark '(', .text p, .mark ')', .mark ')'] =>
    if depends = "Depends" ∧ check = "require_perm" then some (.permission p) else none
  | _ => none

/-- The guards in the argument of a route; without the argument there are none. -/
def guards? : List Token → Option (List Guard)
  | [] => some []
  | .mark ',' :: .name argument :: .mark '=' :: .mark '[' :: rest =>
    if argument = "dependencies" ∧ rest.getLast? = some (.mark ']') then
      (rest.dropLast.splitOn (.mark ',')).mapM guard?
    else none
  | _ => none

def Guard.tokens : Guard → List Token
  | context provider => [.name "Depends", .mark '(', .name provider, .mark ')']
  | permission p =>
    [.name "Depends", .mark '(', .name "require_perm", .mark '(', .text p, .mark ')', .mark ')']

def Guard.need : Guard → String
  | context provider => provider
  | permission _ => "require_perm"

def argumentTokens (guards : List Guard) : List Token :=
  if guards = [] then []
  else .mark ',' :: .name "dependencies" :: .mark '=' :: .mark '[' ::
    ([.mark ','].intercalate (guards.map Guard.tokens) ++ [.mark ']'])

theorem guard?_tokens (g : Guard) : guard? g.tokens = some g := by
  cases g <;> rfl

theorem guards?_argumentTokens (guards : List Guard) :
    guards? (argumentTokens guards) = some guards := by
  have hmark : ∀ part ∈ guards.map Guard.tokens, Token.mark ',' ∉ part := by
    rw [List.forall_mem_map]
    intro g _
    cases g <;> simp [Guard.tokens]
  have hread : ∀ gs : List Guard, (gs.map Guard.tokens).mapM guard? = some gs := by
    intro gs
    induction gs with
    | nil => rfl
    | cons g gs ih => simp [List.mapM_cons, guard?_tokens, ih]
  unfold argumentTokens
  split_ifs with hne
  · rw [hne]
    rfl
  · rw [guards?, if_pos ⟨rfl, List.getLast?_concat⟩, List.dropLast_concat,
      List.splitOn_intercalate _ hmark (by simpa using hne), hread]

/-- Items with commas between them are read one by one. -/
theorem reads_commaSeparated {α : Type} {f : α → String} {ts : α → List Token} {items : List α}
    (h : ∀ item ∈ items, Reads (f item) (ts item)) :
    Reads (commaSeparated (items.map f)) ([.mark ','].intercalate (items.map ts)) := by
  have hcomma : Reads ", " [.mark ','] := reads_closed (by decide +kernel)
  induction items with
  | nil => exact reads_empty
  | cons item rest ih =>
    rw [List.forall_mem_cons] at h
    cases rest with
    | nil => simpa [commaSeparated] using h.1
    | cons next rest =>
      have hrest := (h.1.append hcomma).append (ih h.2)
      rw [commaSeparated] at hrest ⊢
      rw [List.map_cons, List.map_cons, String.intercalate_cons_cons, List.map_cons, List.map_cons,
        List.intercalate_cons_cons]
      exact hrest

theorem reads_text {g : Guard} (hg : IsWord g.need) : Reads g.text g.tokens := by
  cases g with
  | context provider =>
    have hopen : Reads "Depends(" [.name "Depends", .mark '('] := reads_closed (by decide +kernel)
    have hclose : Reads ")" [.mark ')'] := reads_closed (by decide +kernel)
    have hread := hopen.append (hclose.word_append hg ⟨')', [], rfl, rfl⟩)
    rw [← String.append_assoc] at hread
    exact hread
  | permission p =>
    have hopen : Reads "Depends(require_perm("
        [.name "Depends", .mark '(', .name "require_perm", .mark '('] :=
      reads_closed (by decide +kernel)
    have hclose : Reads "))" [.mark ')', .mark ')'] := reads_closed (by decide +kernel)
    exact (hopen.append (reads_quote p)).append hclose

theorem reads_guardsArgument {guards : List Guard} (hguards : ∀ g ∈ guards, IsWord g.need) :
    Reads (guardsArgument guards) (argumentTokens guards) := by
  have hopen : Reads ", dependencies=[" [.mark ',', .name "dependencies", .mark '=', .mark '['] :=
    reads_closed (by decide +kernel)
  have hclose : Reads "]" [.mark ']'] := reads_closed (by decide +kernel)
  have hitems : Reads (commaSeparated (guards.map Guard.text))
      ([.mark ','].intercalate (guards.map Guard.tokens)) :=
    reads_commaSeparated fun g hg => reads_text (hguards g hg)
  unfold guardsArgument argumentTokens
  simp only [List.isEmpty_iff]
  split_ifs
  · exact reads_empty
  · rw [String.append_assoc]
    exact hopen.append (hitems.append hclose)

/-! ### Names of the application -/

def ServiceSource.needs : ServiceSource → List String
  | provided provider => [provider]
  | built (some context) => ["get_db", context]
  | built none => ["get_db"]
  | missing => []

def Endpoint.needs (h : Endpoint) : List String := h.guards.map Guard.need ++ h.service.needs

/-- The expressions by which a handler is wired to the application: the guards of its route, the
parameter for its service, and the line that makes the service. -/
def Endpoint.wiring (className : String) (h : Endpoint) : List String :=
  guardsArgument h.guards :: h.service.parameter (className ++ "Service") ::
    h.service.construction (className ++ "Service")

def plainNames (serviceClass : String) : List String :=
  ["dependencies", "Depends", "svc", "db", "ctx", "None", serviceClass]

/-- The text is an expression, and it has no other names than these. -/
def NamesOnly (names : List String) (text : String) : Prop :=
  ∃ ts, tokens? text.toList = some ts ∧ ∀ name, .name name ∈ ts → name ∈ names

variable {deps : ImportTarget} {a : Api} {h : Endpoint} {className : String}

theorem namesOnly_of_reads {text : String} {ts : List Token} {names : List String}
    (htext : Reads text ts) (hnames : ∀ name, .name name ∈ ts → name ∈ names) :
    NamesOnly names text :=
  ⟨ts, tokens?_of_reads htext, hnames⟩

theorem isWord_service (hclass : ∀ c ∈ className.toList, isWordChar c = true) :
    IsWord (className ++ "Service") := by
  refine ⟨?_, ?_⟩
  · simp
  · rw [String.toList_append, List.forall_mem_append]
    exact ⟨hclass, List.all_eq_true.mp (by decide)⟩

theorem namesOnly_parameter {serviceClass : String} (hclass : IsWord serviceClass)
    {source : ServiceSource} (hneeds : ∀ name ∈ source.needs, IsWord name) :
    NamesOnly (source.needs ++ plainNames serviceClass) (source.parameter serviceClass) := by
  have hservice : Reads "svc: " [.name "svc", .mark ':'] := reads_closed (by decide +kernel)
  cases source with
  | provided provider =>
    have hdepends : Reads " = Depends(" [.mark '=', .name "Depends", .mark '('] :=
      reads_closed (by decide +kernel)
    have hopen : Reads "(" [.mark '('] := reads_closed (by decide +kernel)
    have hclose : Reads "))" [.mark ')', .mark ')'] := reads_closed (by decide +kernel)
    have hprovider : IsWord provider := hneeds provider (List.mem_singleton_self _)
    have hargument := hopen.append (hclose.word_append hclass ⟨')', [')'], rfl, rfl⟩)
    have hcall := hargument.word_append hprovider (.append ⟨'(', [], rfl, rfl⟩ _)
    have hvalue := (hdepends.append hcall).word_append hclass (.append ⟨' ', _, rfl, rfl⟩ _)
    have hread := hservice.append hvalue
    simp only [← String.append_assoc] at hread
    refine namesOnly_of_reads hread ?_
    simp [ServiceSource.needs, plainNames]
  | built context =>
    cases context with
    | none =>
      have hread : Reads "db=Depends(get_db)"
          [.name "db", .mark '=', .name "Depends", .mark '(', .name "get_db", .mark ')'] :=
        reads_closed (by decide +kernel)
      refine namesOnly_of_reads hread ?_
      simp [ServiceSource.needs, plainNames]
    | some context =>
      have hopen : Reads "db=Depends(get_db), ctx=Depends("
          [.name "db", .mark '=', .name "Depends", .mark '(', .name "get_db", .mark ')', .mark ',',
            .name "ctx", .mark '=', .name "Depends", .mark '('] :=
        reads_closed (by decide +kernel)
      have hclose : Reads ")" [.mark ')'] := reads_closed (by decide +kernel)
      have hcontext : IsWord context :=
        hneeds context (List.mem_cons_of_mem _ (List.mem_singleton_self _))
      have hread := hopen.append (hclose.word_append hcontext ⟨')', [], rfl, rfl⟩)
      rw [← String.append_assoc] at hread
      refine namesOnly_of_reads hread ?_
      simp [ServiceSource.needs, plainNames]
  | missing =>
    -- the default value ends in a name, so this is not read by itself, but nothing follows it
    have hnone : tokens? " = None".toList = some [.mark '=', .name "None"] := by decide +kernel
    have happart : ∀ c ∈ " = None".toList.head?, isWordChar c = false := by
      rintro c ⟨⟩
      rfl
    have hvalue : tokens? (serviceClass ++ " = None").toList =
        some [.name serviceClass, .mark '=', .name "None"] := by
      rw [String.toList_append, tokens?_word hclass happart, hnone, Option.map_some]
    have hread : tokens? ("svc: " ++ (serviceClass ++ " = None")).toList =
        some [.name "svc", .mark ':', .name serviceClass, .mark '=', .name "None"] := by
      rw [hservice.tokens?_append, hvalue, Option.map_some]
      simp only [List.cons_append, List.nil_append]
    rw [← String.append_assoc] at hread
    refine ⟨_, hread, ?_⟩
    simp [ServiceSource.needs, plainNames]

theorem namesOnly_construction {serviceClass : String} (hclass : IsWord serviceClass)
    (source : ServiceSource) : ∀ text ∈ source.construction serviceClass,
    NamesOnly (plainNames serviceClass) text := by
  have hassign : Reads "svc = " [.name "svc", .mark '='] := reads_closed (by decide +kernel)
  have hmake : ∀ {call : String} {ts : List Token}, Reads call ts → BeginsApart call →
      (∀ name, .name name ∈ ts → name ∈ plainNames serviceClass) →
      NamesOnly (plainNames serviceClass) ("svc = " ++ serviceClass ++ call) := by
    intro call ts hcall hapart hnames
    have hread := hassign.append (hcall.word_append hclass hapart)
    rw [← String.append_assoc] at hread
    refine namesOnly_of_reads hread fun name hname => ?_
    simp only [List.mem_append, List.mem_cons, Token.name.injEq, List.not_mem_nil, or_false,
      reduceCtorEq] at hname
    rcases hname with rfl | rfl | hname
    · simp [plainNames]
    · simp [plainNames]
    · exact hnames name hname
  cases source with
  | built context =>
    cases context with
    | none =>
      have hcall : Reads "(db, None)" [.mark '(', .name "db", .mark ',', .name "None", .mark ')'] :=
        reads_closed (by decide +kernel)
      exact List.forall_mem_singleton.mpr
        (hmake hcall ⟨'(', _, rfl, rfl⟩ (by simp [plainNames]))
    | some context =>
      have hcall : Reads "(db, ctx)" [.mark '(', .name "db", .mark ',', .name "ctx", .mark ')'] :=
        reads_closed (by decide +kernel)
      exact List.forall_mem_singleton.mpr
        (hmake hcall ⟨'(', _, rfl, rfl⟩ (by simp [plainNames]))
  | provided provider => exact List.forall_mem_nil _
  | missing => exact List.forall_mem_nil _

/-- The argument of a route has no names but those that its guards need. -/
theorem namesOnly_guardsArgument {guards : List Guard} (serviceClass : String)
    (hneeds : ∀ g ∈ guards, IsWord g.need) :
    NamesOnly (guards.map Guard.need ++ plainNames serviceClass) (guardsArgument guards) := by
  refine namesOnly_of_reads (reads_guardsArgument hneeds) fun name hname => ?_
  have hguard : ∀ g : Guard, .name name ∈ g.tokens → name = "Depends" ∨ name = g.need := by
    intro g hg
    cases g <;> simpa [Guard.tokens, Guard.need] using hg
  unfold argumentTokens at hname
  split_ifs at hname
  · cases hname
  · simp only [List.mem_cons, List.mem_append, Token.name.injEq, List.not_mem_nil, or_false,
      reduceCtorEq, false_or] at hname
    rcases hname with rfl | hname
    · simp [plainNames]
    · rcases mem_of_mem_intercalate hname with hname | ⟨part, hpart, hname⟩
      · simp at hname
      · obtain ⟨g, hg, rfl⟩ := List.mem_map.mp hpart
        rcases hguard g hname with rfl | rfl
        · simp [plainNames]
        · exact List.mem_append_left _ (List.mem_map_of_mem hg)

theorem NamesOnly.mono {names more : List String} {text : String} (h : NamesOnly names text)
    (hsub : ∀ name ∈ names, name ∈ more) : NamesOnly more text := by
  obtain ⟨ts, hts, hnames⟩ := h
  exact ⟨ts, hts, fun name hname => hsub name (hnames name hname)⟩

theorem namesOnly_wiring (hclass : ∀ c ∈ className.toList, isWordChar c = true)
    (hneeds : ∀ name ∈ h.needs, IsWord name) : ∀ text ∈ h.wiring className,
    NamesOnly (h.needs ++ plainNames (className ++ "Service")) text := by
  have hservice : IsWord (className ++ "Service") := isWord_service hclass
  obtain ⟨hguards, hsource⟩ := List.forall_mem_append.mp hneeds
  rw [List.forall_mem_map] at hguards
  refine List.forall_mem_cons.mpr ⟨?_, List.forall_mem_cons.mpr ⟨?_, fun text htext => ?_⟩⟩
  · refine (namesOnly_guardsArgument (className ++ "Service") hguards).mono fun name hname => ?_
    simp only [Endpoint.needs, List.mem_append] at hname ⊢
    tauto
  · refine (namesOnly_parameter hservice hsource).mono fun name hname => ?_
    simp only [Endpoint.needs, List.mem_append] at hname ⊢
    tauto
  · exact (namesOnly_construction hservice h.service text htext).mono fun name hname =>
      List.mem_append_right _ hname

/-! ### What handlers need -/

theorem mem_importedDeps {name : String} :
    name ∈ importedDeps deps ↔ name ∈ knownDeps ∧ deps.has name = true :=
  List.mem_filter

theorem isWord_of_mem_knownDeps : ∀ name ∈ knownDeps, IsWord name := by
  decide +kernel

/-- A handler needs nothing that the module does not import. -/
theorem needs_subset_importedDeps {action : Action} (hh : h.Handles deps a action) :
    ∀ name ∈ h.needs, name ∈ importedDeps deps := by
  rw [Endpoint.needs, hh.guards, hh.service]
  simp only [List.forall_mem_append, List.forall_mem_map, mem_importedDeps]
  constructor
  · unfold guardsOf
    split_ifs <;> simp_all [Guard.need, knownDeps]
  · unfold serviceOf
    dsimp only
    split_ifs <;> simp_all [ServiceSource.needs, knownDeps]

/-- A handler that anyone may call has no guards and needs none of the names for a login. -/
theorem needs_of_anonymous {action : Action} (hh : h.Handles deps a action)
    (ha : a.requiresAuth = false) : h.guards = [] ∧
      ∀ name ∈ h.needs, name ∈ ["get_db", "get_ctx", "provide_service_optional"] := by
  have hguards : h.guards = [] := by
    rw [hh.guards, guardsOf, if_neg (by simp [ha])]
  refine ⟨hguards, ?_⟩
  rw [Endpoint.needs, hguards, hh.service, serviceOf]
  simp only [ha, Bool.false_eq_true, if_false]
  split_ifs <;> simp [ServiceSource.needs]

theorem not_mem_plainNames {dep : String} (hdep : dep ∈ knownDeps) (className : String) :
    dep ∉ plainNames (className ++ "Service") := by
  have hfixed : ∀ dep ∈ knownDeps, dep ∉ ["dependencies", "Depends", "svc", "db", "ctx", "None"] := by
    decide +kernel
  have hending : ∀ dep ∈ knownDeps, ¬ "Service".toList <:+ dep.toList := by
    decide +kernel
  intro hmem
  have hsplit : dep ∈ ["dependencies", "Depends", "svc", "db", "ctx", "None"] ++
      [className ++ "Service"] := hmem
  rcases List.mem_append.mp hsplit with hmem | hmem
  · exact hfixed dep hdep hmem
  · rw [List.mem_singleton.mp hmem] at hdep
    refine hending _ hdep ⟨className.toList, ?_⟩
    rw [String.toList_append]

/-! ### Wiring in the module -/

def importLine (deps : ImportTarget) : String :=
  "from " ++ deps.module ++ " import " ++ commaSeparated (importedDeps deps)

/-- The line stands above the endpoints as soon as there is anything to import. -/
theorem exists_head_importLine (e : Entity) (l : Layout) (i : Imports) (r : RouteTemplates) :
    ∃ head, api e l i r = generated (head ++
      (endpoints e i.deps).flatMap (Endpoint.lines e.className i.res.name)) ∧
      (importedDeps i.deps ≠ [] → importLine i.deps ∈ head) := by
  refine ⟨_, rfl, fun hne => ?_⟩
  obtain ⟨name, names, hnames⟩ := List.exists_cons_of_ne_nil hne
  rw [importLine, hnames]
  simp

/-- Each part of the wiring stands in a line of the handler. -/
theorem wiring_infix_lines (className res : String) (h : Endpoint) :
    ∀ text ∈ h.wiring className, ∃ line ∈ h.lines className res, text.toList <:+: line.toList := by
  have hinfix : ∀ before text after : String,
      text.toList <:+: (before ++ text ++ after).toList := fun before text after =>
    ⟨before.toList, after.toList, by simp⟩
  refine List.forall_mem_cons.mpr ⟨?_, List.forall_mem_cons.mpr ⟨?_, fun text htext => ?_⟩⟩
  · exact ⟨_, route_mem_lines className res h, hinfix _ _ _⟩
  · refine ⟨"def " ++ h.function ++ "(req: " ++ h.action.request className ++ ", " ++
      h.service.parameter (className ++ "Service") ++ "):", ?_, hinfix _ _ _⟩
    simp [Endpoint.lines]
  · refine ⟨indented text, ?_, "    ".toList, [], by rw [indented, String.toList_append]; simp⟩
    simp only [Endpoint.lines, List.map_append, List.mem_append]
    exact Or.inr (Or.inl (List.mem_map_of_mem htext))

/-- The guards in the argument of a route, as far as the entry asks for a login. -/
theorem guardsOf_eq (ha : a.requiresAuth = true) (hperm : deps.has "require_perm" = true) :
    ∃ login ∈ [[], [Guard.context "get_ctx_required"], [Guard.context "get_ctx"]],
      guardsOf deps a = login ++ a.requiredPerms.map .permission := by
  rw [guardsOf, if_pos ha, if_pos hperm]
  split_ifs <;> simp

theorem forall₂_served (e : Entity) (deps : ImportTarget) :
    List.Forall₂ (fun a h => ∃ action, Endpoint.Handles h deps a action)
      (e.apis.filter Api.isServed) (endpoints e deps) := by
  rw [← map_fst_actions, List.forall₂_map_left_iff]
  exact (forall₂_endpoints e deps).imp fun entry h hh => ⟨entry.2, hh⟩

/-- Let the name of a class be made of characters that names have. The module of endpoints is made
of the lines of the handlers, one for each entry that is served, in order, and in these lines stand
the guards of the handler, the parameter for its service and the line that makes it. Each of them is
an expression, and of the names that applications provide it has only those that the module imports.
If the entry asks for no login, there are no guards, and none of the three names for a login is
there. If it does, and the application has a check of permissions, the guards are read back as one
check for each permission, in order, behind at most one for the login. -/
theorem handlers_use_imported_names (e : Entity)
    (hclass : ∀ c ∈ e.className.toList, isWordChar c = true) (l : Layout) (i : Imports)
    (r : RouteTemplates) :
    ∃ head, api e l i r = generated (head ++
      (endpoints e i.deps).flatMap (Endpoint.lines e.className i.res.name)) ∧
    List.Forall₂ (fun a h =>
      (∀ text ∈ h.wiring e.className,
        (∃ line ∈ h.lines e.className i.res.name, text.toList <:+: line.toList) ∧
        ∃ ts, tokens? text.toList = some ts ∧
          (∀ dep ∈ knownDeps, .name dep ∈ ts →
            importLine i.deps ∈ head ∧ dep ∈ importedDeps i.deps) ∧
          (a.requiresAuth = false →
            ∀ dep ∈ ["get_ctx_required", "require_perm", "provide_service"], .name dep ∉ ts)) ∧
      (a.requiresAuth = false →
        guardsArgument h.guards = "" ∧
        "@router.post(" ++ quote a.path ++ ", summary=" ++ quote a.summary ++ ")" ∈
          h.lines e.className i.res.name) ∧
      (a.requiresAuth = true → i.deps.has "require_perm" = true →
        ∃ ts login, tokens? (guardsArgument h.guards).toList = some ts ∧
          login ∈ [[], [Guard.context "get_ctx_required"], [Guard.context "get_ctx"]] ∧
          guards? ts = some (login ++ a.requiredPerms.map .permission)))
      (e.apis.filter Api.isServed) (endpoints e i.deps) := by
  obtain ⟨head, htext, himport⟩ := exists_head_importLine e l i r
  refine ⟨head, htext, (forall₂_served e i.deps).imp ?_⟩
  rintro a h ⟨action, hh⟩
  have hneeds := needs_subset_importedDeps hh
  have hwords : ∀ name ∈ h.needs, IsWord name := fun name hname =>
    isWord_of_mem_knownDeps name (mem_importedDeps.mp (hneeds name hname)).1
  refine ⟨fun text htext => ⟨wiring_infix_lines e.className i.res.name h text htext, ?_⟩, ?_, ?_⟩
  · obtain ⟨ts, hts, hnames⟩ := namesOnly_wiring hclass hwords text htext
    have hneed : ∀ dep ∈ knownDeps, .name dep ∈ ts → dep ∈ h.needs := by
      intro dep hdep hmem
      rcases List.mem_append.mp (hnames dep hmem) with hmem | hmem
      · exact hmem
      · exact absurd hmem (not_mem_plainNames hdep e.className)
    refine ⟨ts, hts, fun dep hdep hmem => ?_, fun ha dep hdep hmem => ?_⟩
    · have himported := hneeds dep (hneed dep hdep hmem)
      exact ⟨himport (List.ne_nil_of_mem himported), himported⟩
    · have hknown : ∀ dep ∈ ["get_ctx_required", "require_perm", "provide_service"],
          dep ∈ knownDeps ∧ dep ∉ ["get_db", "get_ctx", "provide_service_optional"] := by
        decide +kernel
      obtain ⟨hdep, hother⟩ := hknown dep hdep
      exact hother ((needs_of_anonymous hh ha).2 dep (hneed dep hdep hmem))
  · intro ha
    have hargument : guardsArgument h.guards = "" := by
      rw [(needs_of_anonymous hh ha).1]
      rfl
    have hroute := route_mem_lines e.className i.res.name h
    rw [hargument, String.append_empty, hh.path, hh.summary] at hroute
    exact ⟨hargument, hroute⟩
  · intro ha hperm
    obtain ⟨login, hlogin, hguards⟩ := guardsOf_eq ha hperm
    have hguardWords := List.forall_mem_map.mp (List.forall_mem_append.mp hwords).1
    refine ⟨_, login, tokens?_of_reads (reads_guardsArgument hguardWords), hlogin, ?_⟩
    rw [guards?_argumentTokens, hh.guards, hguards]

def checkedItem : Entity where
  className := "Item"
  tableName := "item"
  moduleName := "shop"
  comment := ""
  displayName := "Item"
  fields := []
  uniqueConstraints := []
  apis := [⟨"list", "list", "/list", .entity, [], false⟩,
    ⟨"mark-sold", "Mark as sold", "/sold", .custom none [], ["item:\"sold\"", "shop\\till"], false⟩]
  softDelete := true
  timestamps := true

def checkedImports : Imports :=
  ⟨⟨"app.models.base", "Base"⟩, ⟨"app.deps", ["require_perm", "get_ctx", "get_db"]⟩,
    ⟨"app.common.res", "Res"⟩⟩

theorem checkedItem_uses_imported_names :
    (∀ c ∈ checkedItem.className.toList, isWordChar c = true) ∧
    ∃ listing selling, endpoints checkedItem checkedImports.deps = [listing, selling] ∧
      guardsArgument listing.guards = "" ∧
      ∃ ts login, tokens? (guardsArgument selling.guards).toList = some ts ∧
        guards? ts = some (login ++ [.permission "item:\"sold\"", .permission "shop\\till"]) := by
  have hclass : ∀ c ∈ checkedItem.className.toList, isWordChar c = true :=
    List.all_eq_true.mp (by decide +kernel)
  refine ⟨hclass, ?_⟩
  obtain ⟨head, -, hall⟩ := handlers_use_imported_names checkedItem hclass (.of ⟨"."⟩ {})
    checkedImports ⟨"", ""⟩
  have hserved : checkedItem.apis.filter Api.isServed = checkedItem.apis := by decide +kernel
  rw [hserved] at hall
  generalize endpoints checkedItem checkedImports.deps = handlers at hall ⊢
  rcases hall with _ | ⟨⟨-, hlisting, -⟩, _ | ⟨⟨-, -, hselling⟩, _ | _⟩⟩
  obtain ⟨ts, login, hts, -, hguards⟩ := hselling (by decide +kernel) (by decide +kernel)
  exact ⟨_, _, rfl, (hlisting (by decide +kernel)).1, ts, login, hts, hguards⟩

end Artifact

end CrudBackend
