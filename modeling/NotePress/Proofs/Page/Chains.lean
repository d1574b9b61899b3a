import NotePress.Proofs.Page.Failures
import NotePress.Proofs.Page.Histories
import NotePress.Proofs.Page.Termination

/-!
# Chains of documents

In a nested document a render remembers the chain of documents around it: first the
document of the page, and then each that the one before nests. Links and lists of index
documents add nothing to a chain, and every page begins a new one. A document is refused
as cyclic exactly where a `#Nested` leads back into the chain.
-/

namespace NotePress
namespace Page

/-! ## Documents around one another -/

/-- The context of the last one of some documents, with the others around it. -/
def Context.ofChain (around : List Location) (last : Location) : Context :=
  ⟨directoryOf last, (around ++ [last]).map Location.path⟩

/-- The documents around one another that a render of a page comes to, the last of them
with what was read from it. The first is the document of the page, and each other one is
nested by a hashtag that stands in the one before. -/
inductive Entered
    (environment : Environment)
    (page : Compilation) : List Location → Location → Document → Prop
  | page
      {opened : Session}
      {document : Document}
      (opens : page.opened? environment = some (opened, document)) :
      Entered environment page [] page.source document
  | nested
      {around : List Location}
      {last source : Location}
      {outer document : Document}
      {visit : Visit}
      {hashtag : Document.Hashtag}
      {target : String}
      (entered : Entered environment page around last outer)
      (reached : Reached environment (page.visits environment) visit)
      (context : visit.context = .ofChain around last)
      (block : visit.block = .hashtag hashtag)
      (stands : hashtag ∈ hashtagsInGroups outer)
      (directive : Directive.ofHashtag? hashtag = some (.nested target))
      (located : locateSource visit.session.disk
        ((directoryOf last).resolve target) = .ok source)
      (reads : loadSource visit.session.disk source = .ok document) :
      Entered environment page (around ++ [last]) source document

/-- A chain of documents: they are around one another, the document of the page is the
first, none is there twice, and each has the place that it has no other name for. -/
structure IsChain
    (environment : Environment)
    (page : Compilation)
    (around : List Location)
    (last : Location)
    (document : Document) : Prop where
  entered : Entered environment page around last document
  first : (around ++ [last]).head? = some page.source
  nodup : (around ++ [last]).Nodup
  canonical : ∀ source ∈ around ++ [last], source.IsProper

/-- The contexts of a page: its own, those of the visits in it, and those of the
documents that these bring in. -/
inductive InContext
    (environment : Environment)
    (page : Compilation) : Context → Prop
  | page
      (opens : (page.opened? environment).isSome = true) :
      InContext environment page page.context
  | visit
      {visit : Visit}
      (reached : Reached environment (page.visits environment) visit) :
      InContext environment page visit.context
  | brought
      {visit : Visit}
      {hashtag : Document.Hashtag}
      {context : Context}
      {document : Document}
      (reached : Reached environment (page.visits environment) visit)
      (block : visit.block = .hashtag hashtag)
      (brings : Brings environment visit.context hashtag visit.session context
        document) :
      InContext environment page context

/-! ## Nested documents -/

/-- A visit takes up a `#Nested` that leads to a document. -/
def Visit.Nests (visit : Visit) (source : Location) : Prop :=
  ∃ target, visit.directive? = some (.nested target) ∧
    locateSource visit.session.disk (visit.context.base.resolve target) =
      .ok source

/-- A visit takes up a `#Nested` that leads to a document in the chain. -/
structure Visit.ClosesCycle (visit : Visit) (source : Location) : Prop where
  nests : visit.Nests source
  around : Location.path source ∈ visit.context.visited

/-- A visit in the last document of a chain. It takes up nothing but what that document
holds, and links in the lists of index documents. -/
structure Visit.StandsIn
    (environment : Environment)
    (page : Compilation)
    (visit : Visit)
    (around : List Location)
    (last : Location)
    (document : Document) : Prop where
  chain : IsChain environment page around last document
  context : visit.context = .ofChain around last
  hashtags : ∀ hashtag ∈ hashtagsInBlock visit.block,
    hashtag ∈ hashtagsInGroups document ∨ hashtag.name = "Link"

section Chains

variable
  {environment : Environment}
  {page : Compilation}
  {visit : Visit}
  {around : List Location}
  {last : Location}
  {document : Document}

theorem Context.ofChain_append
    (around : List Location)
    (last source : Location) :
    ofChain (around ++ [last]) source =
      ⟨directoryOf source,
        (ofChain around last).visited ++ [Location.path source]⟩ := by
  have whole : (around ++ [last] ++ [source]).map Location.path =
      (around ++ [last]).map Location.path ++ [Location.path source] :=
    List.map_append
  exact congrArg (Context.mk _) whole

theorem samePath_path
    {left right : Location}
    (leftProper : left.IsProper)
    (rightProper : right.IsProper) :
    samePath (Location.path left) (Location.path right) = true ↔ left = right :=
  (samePath_iff leftProper.spells rightProper.spells).trans
    (List.map_injective_iff.mpr fun _ _ => String.toList_injective).eq_iff

/-- Documents in a chain are told apart by their paths. -/
theorem any_samePath_iff
    {sources : List Location}
    (canonical : ∀ source ∈ sources, source.IsProper)
    {source : Location}
    (proper : source.IsProper) :
    (sources.map Location.path).any (samePath (Location.path source)) = true ↔
      source ∈ sources := by
  rw [List.any_map, List.any_eq_true]
  constructor
  · rintro ⟨other, member, same⟩
    rwa [(samePath_path proper (canonical other member)).mp same]
  · exact fun member => ⟨source, member, (samePath_path proper proper).mpr rfl⟩

theorem IsChain.ofPage
    {opened : Session}
    (opens : page.opened? environment = some (opened, document))
    (proper : page.source.IsProper) :
    IsChain environment page [] page.source document :=
  ⟨.page opens, rfl, List.nodup_singleton _, List.forall_mem_singleton.mpr proper⟩

/-- A document that is brought in is in a chain, with the hashtags that are taken up
there. -/
theorem Visit.StandsIn.brings
    (standing : visit.StandsIn environment page around last document)
    (reached : Reached environment (page.visits environment) visit)
    (plain : visit.session.disk.IsPlain)
    {hashtag : Document.Hashtag}
    (block : visit.block = .hashtag hashtag)
    {inner : Context}
    {brought : Document}
    (brings : Brings environment visit.context hashtag visit.session inner
      brought) :
    ∃ around last document, IsChain environment page around last document ∧
      inner = .ofChain around last ∧
      ∀ hashtag ∈ hashtagsInGroups brought,
        hashtag ∈ hashtagsInGroups document ∨ hashtag.name = "Link" := by
  have chain := standing.chain
  have stands : hashtag ∈ hashtagsInGroups document := by
    refine (standing.hashtags hashtag ?_).resolve_right (name_of_brings brings)
    rw [block, hashtagsInBlock]
    exact List.mem_singleton_self hashtag
  have context := standing.context
  cases brings with
  | @nested target source brought directive located fresh reads =>
      have proper := isProper_of_locateSource plain located
      rw [context] at located fresh ⊢
      have absent : source ∉ around ++ [last] := by
        rw [← any_samePath_iff chain.canonical proper]
        exact Bool.eq_false_iff.mp fresh
      refine ⟨around ++ [last], source, brought,
        ⟨.nested chain.entered reached context block stands directive located
          reads, ?_, ?_, ?_⟩, ?_, fun _ => .inl⟩
      · rw [List.head?_append, chain.first, Option.some_or]
      · exact chain.nodup.append (List.nodup_singleton _)
          (List.disjoint_singleton.mpr absent)
      · exact List.forall_mem_append.mpr
          ⟨chain.canonical, List.forall_mem_singleton.mpr proper⟩
      · exact (Context.ofChain_append around last source).symm
  | autoNested directive lists =>
      exact ⟨around, last, document, chain, context, fun _ listed =>
        .inr (allLinks_indexDocument _ _ _ listed)⟩

/-- Every visit in a page is in the last document of a chain. -/
theorem Reached.standsIn
    (proper : page.source.IsProper)
    (plain : ∀ visit, Reached environment (page.visits environment) visit →
      visit.session.disk.IsPlain)
    (reached : Reached environment (page.visits environment) visit) :
    ∃ around last document,
      visit.StandsIn environment page around last document := by
  induction reached with
  | start member =>
      have context := (Compilation.mem_visits member).2
      rw [Compilation.visits] at member
      cases opens : page.opened? environment with
      | none =>
          rw [opens] at member
          cases member
      | some found =>
          obtain ⟨opened, document⟩ := found
          rw [opens] at member
          obtain ⟨paragraph, paragraphMember, block, blockMember, _, rfl⟩ :=
            Site.mem_paragraphs member
          exact ⟨[], page.source, document, .ofPage opens proper, context,
            fun _ inBlock => .inl (mem_hashtagsInGroups paragraphMember
              (mem_hashtagsInBlocks blockMember inBlock))⟩
  | @inside outer inner reached member inductionHypothesis =>
      obtain ⟨around, last, document, standing⟩ := inductionHypothesis
      rcases Visit.document_cases member with
        ⟨_, context, part⟩ | ⟨hashtag, brought, block, _, brings, part⟩
      · exact ⟨around, last, document, standing.chain,
          context.trans standing.context,
          fun hashtag inBlock => standing.hashtags hashtag (part hashtag inBlock)⟩
      · obtain ⟨around, last, document, chain, context, hashtags⟩ :=
          standing.brings reached (plain outer reached) block
            (transcluded_iff.mp brings)
        exact ⟨around, last, document, chain, context,
          fun hashtag inBlock => hashtags hashtag (part hashtag inBlock)⟩

/-! ## Where cycles come up -/

/-- A visit raises a cycle where it nests a document that is in the chain. -/
theorem Visit.StandsIn.raises_iff
    (standing : visit.StandsIn environment page around last document)
    (plain : visit.session.disk.IsPlain)
    {path : Path}
    {chain : List Path} :
    visit.Raises (.cyclicTransclusion path chain) ↔
      ∃ source, visit.ClosesCycle source ∧ path = Location.path source ∧
        chain = visit.context.visited := by
  constructor
  · rintro ⟨⟩
    rename_i hashtag block refuses
    cases refuses with
    | file isOfFile => exact isOfFile.elim
    | @cyclic target source directive located visited =>
        refine ⟨source, ⟨⟨target, (directive_of_block block).trans directive,
          located⟩, ?_⟩, rfl, rfl⟩
        rw [standing.context] at visited ⊢
        exact List.mem_map_of_mem ((any_samePath_iff standing.chain.canonical
          (isProper_of_locateSource plain located)).mp visited)
  · rintro ⟨source, ⟨⟨target, nested, located⟩, visited⟩, rfl, rfl⟩
    obtain ⟨hashtag, block, directive⟩ := block_of_directive nested
    exact .refused block (.cyclic directive located
      (List.any_eq_true.mpr ⟨_, visited, beq_self_eq_true _⟩))

/-- Where a document of the chain is nested, the render fails. -/
theorem Visit.ClosesCycle.fails
    {source : Location}
    (closes : visit.ClosesCycle source)
    (deep : 0 < visit.depth) :
    (visit.outcome environment).failure =
      some (.cyclicTransclusion (Location.path source) visit.context.visited) := by
  obtain ⟨⟨target, nested, located⟩, visited⟩ := closes
  obtain ⟨hashtag, block, directive⟩ := block_of_directive nested
  obtain ⟨depth, same⟩ := Nat.exists_eq_succ_of_ne_zero (Nat.ne_of_gt deep)
  have around : visit.context.visited.any
      (samePath (Location.path source)) = true :=
    List.any_eq_true.mpr ⟨_, visited, beq_self_eq_true _⟩
  rw [Visit.outcome_hashtag block, same, renderHashtag, directive]
  dsimp only
  rw [located]
  dsimp only
  rw [if_pos around]
  rfl

theorem starts_of_nested
    {target : String}
    (nested : visit.directive? = some (.nested target)) :
    visit.starts? = none := by
  cases starts : visit.starts? with
  | none => rfl
  | some next =>
      obtain ⟨_, _, start⟩ := startsBy_of_starts starts
      rw [start.link] at nested
      cases nested

/-- A link brings in nothing. -/
theorem not_contains_of_link
    {target title : String}
    (link : visit.directive? = some (.link target title)) :
    ¬visit.Contains environment := by
  obtain ⟨hashtag, block, directive⟩ := block_of_directive link
  rw [Visit.Contains, block]
  refine not_not.mpr (.inr ?_)
  rw [transcluded?, directive]

/-- The document of a page was begun when a visit in it finds its session. -/
theorem Reached.mem_compiled
    (reached : Reached environment (page.visits environment) visit) :
    page.source ∈ visit.session.compiled := by
  induction reached with
  | start member => exact (Compilation.begun_of_mem_visits member).2.2
  | @inside outer inner _ member inductionHypothesis =>
      obtain ⟨_, _, runs, _⟩ := outer.course.found inner member
      exact runs.compiled_subset inductionHypothesis

/-! ## The pages of a run -/

variable
  {first next other : Compilation}

theorem Opened.trans
    (front : Opened environment first page)
    (back : Opened environment page other) :
    Opened environment first other := by
  induction back with
  | start => exact front
  | link _ reached starts inductionHypothesis =>
      exact .link inductionHypothesis reached starts

/-- A page that is made in a run is that of a document that was not begun before, when
the first one is. -/
theorem Opened.fresh
    (opened : Opened environment next other)
    (fresh : next.source ∉ next.session.compiled) :
    other.source ∉ next.session.compiled := by
  cases opened with
  | start => exact fresh
  | link opened reached starts =>
      obtain ⟨_, _, start⟩ := startsBy_of_starts starts
      have kept : next.session.compiled ⊆ _ :=
        (opened.advances_visit reached).compiled
      exact fun begun => start.fresh (kept begun)

/-- A compilation that starts a run on a disk without links, deep enough for the run to
end. -/
structure Compilation.IsRoot (first : Compilation) : Prop where
  plain : first.session.disk.IsPlain
  deep : ∃ disk, depthBound disk ≤ first.depth
  proper : first.source.IsProper

/-- What a call starts with is the root of its run. -/
theorem isRoot_of_called
    {session : Session}
    (plain : session.disk.IsPlain)
    {path : Path}
    (calls : called? path session = some first) :
    first.IsRoot := by
  have located := located_of_called calls
  rw [called?] at calls
  split at calls <;> cases calls
  exact ⟨plain, ⟨session.disk, Nat.le_refl _⟩,
    isProper_of_locateSource plain located⟩

theorem isOfFile_of_not_called
    {session : Session}
    {path : Path}
    (uncalled : called? path session = none)
    {error : RenderError}
    (fails : (compileFile environment path session).1 = .error error) :
    error.IsOfFile := by
  rw [compileFile] at fails
  rw [called?] at uncalled
  split at uncalled
  next found lost =>
    rw [lost] at fails
    cases fails
    exact isOfFile_of_locateSource lost
  next => cases uncalled

variable
  (keepsPlain : KeepsPlain environment.machine)
  (root : first.IsRoot)
  (opened : Opened environment first page)

include root opened

theorem Opened.isDeep
    (reached : Reached environment (page.visits environment) visit) :
    visit.IsDeep := by
  obtain ⟨disk, deep⟩ := root.deep
  exact (opened.occurs reached).isDeep fun start member =>
    isDeep_of_mem_visits member disk deep

include keepsPlain

theorem Opened.standsIn
    (reached : Reached environment (page.visits environment) visit) :
    ∃ around last document,
      visit.StandsIn environment page around last document :=
  reached.standsIn (opened.isProper keepsPlain root.plain root.proper)
    fun _ => opened.isPlain keepsPlain root.plain

/-- The chain of a visit begins with the document of its page. -/
theorem Opened.head_visited
    (reached : Reached environment (page.visits environment) visit) :
    visit.context.visited.head? = some (Location.path page.source) := by
  obtain ⟨around, last, document, standing⟩ := opened.standsIn keepsPlain root reached
  rw [standing.context, Context.ofChain, List.head?_map, standing.chain.first,
    Option.map_some]

theorem Opened.raises_iff
    (reached : Reached environment (page.visits environment) visit)
    {path : Path}
    {chain : List Path} :
    visit.Raises (.cyclicTransclusion path chain) ↔
      ∃ source, visit.ClosesCycle source ∧ path = Location.path source ∧
        chain = visit.context.visited := by
  obtain ⟨around, last, document, standing⟩ := opened.standsIn keepsPlain root reached
  exact standing.raises_iff (opened.isPlain keepsPlain root.plain reached)

/-- A compilation of a run fails for a cycle exactly when a visit in one of the pages
that it makes closes one. -/
theorem Opened.cyclic_iff
    {path : Path}
    {chain : List Path} :
    (page.result environment).1 = .error (.cyclicTransclusion path chain) ↔
      ∃ other visit source, Opened environment page other ∧
        Reached environment (other.visits environment) visit ∧
        visit.ClosesCycle source ∧ path = Location.path source ∧
        chain = visit.context.visited := by
  constructor
  · intro fails
    rcases Compilation.raised fails with isOfFile | ⟨visit, occurs, raises⟩
    · exact isOfFile.elim
    · obtain ⟨other, later, reached⟩ := exists_opened_of_occurs .start occurs
      obtain ⟨source, closes⟩ :=
        ((opened.trans later).raises_iff keepsPlain root reached).mp raises
      exact ⟨other, visit, source, later, reached, closes⟩
  · rintro ⟨other, visit, source, later, reached, closes, rfl, rfl⟩
    exact Compilation.fails_of_occurs (later.occurs reached)
      (closes.fails ((opened.trans later).isDeep root reached).depth_pos)

theorem Opened.isChain_of_inContext
    {context : Context}
    (inside : InContext environment page context) :
    ∃ around last document,
      IsChain environment page around last document ∧
        context = .ofChain around last := by
  cases inside with
  | page opens =>
      obtain ⟨⟨file, document⟩, opens⟩ := Option.isSome_iff_exists.mp opens
      exact ⟨[], page.source, document,
        .ofPage opens (opened.isProper keepsPlain root.plain root.proper), rfl⟩
  | visit reached =>
      obtain ⟨around, last, document, standing⟩ :=
        opened.standsIn keepsPlain root reached
      exact ⟨around, last, document, standing.chain, standing.context⟩
  | brought reached block brings =>
      obtain ⟨_, _, _, standing⟩ := opened.standsIn keepsPlain root reached
      obtain ⟨around, last, document, chain, context, _⟩ :=
        standing.brings reached (opened.isPlain keepsPlain root.plain reached) block brings
      exact ⟨around, last, document, chain, context⟩

/-- A link fails for a cycle only when the page that is made for it does, and that cycle
is in a chain of another page. -/
theorem Opened.cyclic_of_link
    (reached : Reached environment (page.visits environment) visit)
    {target title : String}
    (link : visit.directive? = some (.link target title))
    {path : Path}
    {chain : List Path}
    (fails : (visit.outcome environment).failure =
      some (.cyclicTransclusion path chain)) :
    ∃ next, visit.starts? = some next ∧
      (next.result environment).1 = .error (.cyclicTransclusion path chain) ∧
      chain.head? ≠ visit.context.visited.head? := by
  cases starts : visit.starts? with
  | none =>
      obtain ⟨source, ⟨⟨_, nested, _⟩, _⟩, _⟩ :=
        (opened.raises_iff keepsPlain root reached).mp
          (Visit.raises_of_fails (not_contains_of_link link) starts fails)
      rw [link] at nested
      cases nested
  | some next =>
      have later : Opened environment first next := .link opened reached starts
      have failed := (Visit.fails_iff_of_starts starts _).mp fails
      refine ⟨next, rfl, failed, ?_⟩
      obtain ⟨other, found, source, linked, foundReached, _, _, rfl⟩ :=
        (later.cyclic_iff keepsPlain root).mp failed
      have whole := later.trans linked
      obtain ⟨_, _, start⟩ := startsBy_of_starts starts
      have fresh := linked.fresh (by rw [start.session]; exact start.fresh)
      rw [start.session] at fresh
      rw [whole.head_visited keepsPlain root foundReached,
        opened.head_visited keepsPlain root reached]
      intro same
      have equal : other.source = page.source :=
        (samePath_path (whole.isProper keepsPlain root.plain root.proper)
          (opened.isProper keepsPlain root.plain root.proper)).mp (by
            rw [Option.some.inj same]
            exact beq_self_eq_true _)
      rw [equal] at fresh
      exact fresh reached.mem_compiled

/-- A document that was nested can be nested again in the same context. -/
theorem Opened.not_cyclic_of_nested
    {before : Visit}
    (reached : Reached environment (page.visits environment) visit)
    (beforeReached : Reached environment (page.visits environment) before)
    (context : visit.context = before.context)
    {source : Location}
    (nests : visit.Nests source)
    (nested : before.Nests source)
    (complete : (before.outcome environment).failure = none)
    (path : Path)
    (chain : List Path) :
    ¬visit.Stops environment (.cyclicTransclusion path chain) := by
  intro stops
  have leaf : ¬visit.Contains environment := by
    intro contains
    obtain ⟨inner, member, _⟩ :=
      (Visit.failsAs_inside contains _).mp stops.failure
    rw [stops.inside] at member
    cases member
  obtain ⟨target, takesUp, located⟩ := nests
  obtain ⟨closed, ⟨⟨other, same, found⟩, around⟩, _⟩ :=
    (opened.raises_iff keepsPlain root reached).mp
      (Visit.raises_of_fails leaf (starts_of_nested takesUp) stops.failure)
  rw [takesUp] at same
  cases same
  rw [located] at found
  cases found
  rw [context] at around
  have closes : before.ClosesCycle source := ⟨nested, around⟩
  have deep := (opened.isDeep root beforeReached).depth_pos
  rw [closes.fails deep] at complete
  cases complete

end Chains

/-- The chains in a page. Every context in it is that of a chain. A document that was
nested does not close a cycle where it is nested again in the same context, and neither
does a link: it fails for a cycle only when the page that is made for it does, and that
cycle is in a chain that begins with another document. -/
structure ChainsHold
    (environment : Environment)
    (page : Compilation) : Prop where
  chains : ∀ context, InContext environment page context →
    ∃ around last document,
      IsChain environment page around last document ∧
        context = .ofChain around last
  repeated : ∀ before visit source,
    Reached environment (page.visits environment) before →
    Reached environment (page.visits environment) visit →
    visit.context = before.context → before.Nests source → visit.Nests source →
    (before.outcome environment).failure = none →
    ∀ path chain, ¬visit.Stops environment (.cyclicTransclusion path chain)
  links : ∀ visit target title,
    Reached environment (page.visits environment) visit →
    visit.directive? = some (.link target title) →
    ∀ path chain,
      (visit.outcome environment).failure =
        some (.cyclicTransclusion path chain) →
      ∃ next, visit.starts? = some next ∧
        (next.result environment).1 = .error (.cyclicTransclusion path chain) ∧
        chain.head? ≠ visit.context.visited.head?

/-- On a disk without links the chains hold in every page that a call makes. The call
fails for a cycle exactly when it comes to a `#Nested` of a document that is there and
in the chain, with the path of this document and that chain. -/
theorem cyclicTransclusion_exact
    {environment : Environment}
    (keepsPlain : KeepsPlain environment.machine)
    {session : Session}
    (plain : session.disk.IsPlain)
    (path : Path) :
    (∀ first page, called? path session = some first →
      Opened environment first page → ChainsHold environment page) ∧
    ∀ nested chain,
      (compileFile environment path session).1 =
          .error (.cyclicTransclusion nested chain) ↔
        ∃ first page visit source, called? path session = some first ∧
          Opened environment first page ∧
          Reached environment (page.visits environment) visit ∧
          visit.ClosesCycle source ∧ nested = Location.path source ∧
          chain = visit.context.visited := by
  refine ⟨fun first page calls opened => ?_, fun nested chain => ?_⟩
  · have root := isRoot_of_called plain calls
    exact ⟨fun _ => opened.isChain_of_inContext keepsPlain root,
      fun _ _ _ beforeReached reached context before nests complete =>
        opened.not_cyclic_of_nested keepsPlain root reached beforeReached context nests
          before complete,
      fun _ _ _ reached link _ _ => opened.cyclic_of_link keepsPlain root reached link⟩
  · cases calls : called? path session with
    | none =>
        refine iff_of_false (fun fails => ?_) ?_
        · exact isOfFile_of_not_called calls fails
        · rintro ⟨_, _, _, _, absent, _⟩
          cases absent
    | some first =>
        have root := isRoot_of_called plain calls
        rw [(compileFile_of_called calls).2]
        refine (Opened.start.cyclic_iff keepsPlain root).trans ?_
        constructor
        · rintro ⟨page, visit, source, closes⟩
          exact ⟨first, page, visit, source, rfl, closes⟩
        · rintro ⟨_, page, visit, source, ⟨⟩, closes⟩
          exact ⟨page, visit, source, closes⟩

/-- A document nests another one twice, which links back to it, and then one that nests
it. Only the last of these closes a cycle. -/
theorem cyclicTransclusion_exact_back :
    let environment : Environment := ⟨{}, fun disk _ _ => (.ok "", disk)⟩
    let nests : String → String := fun name => "#Nested\x7b" ++ name ++ "\x7d "
    let disk : Disk :=
      { entries :=
          [(["notes"], .directory), (["notes", "a.scrip"], .file 0),
            (["notes", "b.scrip"], .file 1), (["notes", "c.scrip"], .file 2)]
        nodes :=
          #[{ content := .ofText
                (nests "b.scrip" ++ nests "b.scrip" ++ nests "c.scrip") },
            { content := .ofText "#Link\x7ba.scrip\x7d" },
            { content := .ofText (nests "a.scrip") }]
        workingDirectory := ["notes"] }
    let session : Session := { disk := disk }
    let chain : List Path := [⟨"/notes/a.scrip"⟩, ⟨"/notes/c.scrip"⟩]
    KeepsPlain environment.machine ∧ session.disk.IsPlain ∧
      (compileFile environment ⟨"a.scrip"⟩ session).1 =
        .error (.cyclicTransclusion ⟨"/notes/a.scrip"⟩ chain) ∧
      ∃ first page visit source, called? ⟨"a.scrip"⟩ session = some first ∧
        Opened environment first page ∧ ChainsHold environment page ∧
        Reached environment (page.visits environment) visit ∧
        visit.ClosesCycle source ∧
        ⟨"/notes/a.scrip"⟩ = Location.path source ∧
        chain = visit.context.visited := by
  intro environment nests disk session chain
  have keepsPlain : KeepsPlain environment.machine :=
    fun _ _ _ plain => plain
  have plain : session.disk.IsPlain := by
    refine ⟨by simp [session, disk, Disk.LinkFree], ?_⟩
    exact List.forall_mem_singleton.mpr ⟨by decide, by decide, by decide⟩
  have fails : (compileFile environment ⟨"a.scrip"⟩ session).1 =
      .error (.cyclicTransclusion ⟨"/notes/a.scrip"⟩ chain) := by
    decide +kernel
  obtain ⟨chains, cycles⟩ :=
    @cyclicTransclusion_exact environment keepsPlain session plain ⟨"a.scrip"⟩
  obtain ⟨first, page, visit, source, calls, opened, reached, closes⟩ :=
    (cycles _ _).mp fails
  exact ⟨keepsPlain, plain, fails, first, page, visit, source, calls, opened,
    chains first page calls opened, reached, closes⟩

end Page
end NotePress
