import ChainExtract.Proofs.BlockRange.Entries
import ChainExtract.Proofs.BlockRange.Retrieval
import ChainExtract.Proofs.Export.Artifacts

/-! # Artifacts of a range

When a range has come to its end, the artifact of a block under streaming sinks holds the
records of the last processing of a block with this number that gave it any. A processing
without records for it leaves behind what an earlier one has made.
-/

namespace ChainExtract

open Journal

variable {σ χ : Type}

/-- What is left of an artifact when blocks have been processed one after the other: what the
last block with the number made of it that had records for it. -/
def Artifact.remaining (sinks : List Sink) (processed : List (Block × List Record)) (number : Int)
    (artifact : Artifact) : Option String :=
  processed.reverse.findSome? fun (block, records) =>
    if block.number = number then artifact.contents sinks records else none

theorem Artifact.remaining_concat (sinks : List Sink) (processed : List (Block × List Record))
    (block : Block) (records : List Record) (number : Int) (artifact : Artifact) :
    artifact.remaining sinks (processed ++ [(block, records)]) number =
      (if block.number = number then artifact.contents sinks records else none).or
        (artifact.remaining sinks processed number) := by
  rw [remaining, remaining, List.reverse_append, List.findSome?_append]
  simp

/-- Whether a file could not be written. -/
def Error.isUnwritten : Error → Bool
  | .unwritten _ _ => true
  | _ => false

namespace Journal

/-- No failure to write a file was reported. -/
def Written (entries : List JournalEntry) : Prop :=
  ∀ report ∈ reports entries, report.2.isUnwritten = false

/-- No table that got a row has a slash in its name. -/
def Unslashed (entries : List JournalEntry) : Prop :=
  ∀ table ∈ Record.tables (exports entries), '/' ∉ table.toList

instance (entries : List JournalEntry) : Decidable (Written entries) :=
  inferInstanceAs (Decidable (∀ report ∈ reports entries, report.2.isUnwritten = false))

instance (entries : List JournalEntry) : Decidable (Unslashed entries) :=
  inferInstanceAs (Decidable (∀ table ∈ Record.tables (exports entries), '/' ∉ table.toList))

theorem written_append {first second : List JournalEntry} :
    Written (first ++ second) ↔ Written first ∧ Written second := by
  simp only [Written, reports_append, List.forall_mem_append]

theorem unslashed_append {first second : List JournalEntry} :
    Unslashed (first ++ second) ↔ Unslashed first ∧ Unslashed second := by
  simp only [Unslashed, exports_append, Record.tables, List.filterMap_append,
    List.forall_mem_append]

end Journal

namespace RunState

/-- What was done between two states while no block was handed over and none ended: the sinks
have received what was exported, and no artifact has been touched. -/
structure Collects (start state : RunState σ) (entries : List JournalEntry) : Prop where
  journal : state.journal = entries.reverse ++ start.journal
  deliveries : deliveries entries = []
  sinks : state.sinks = start.sinks.map fun sink => (exports entries).foldl Sink.add sink
  directories : state.folder.directories = start.folder.directories
  artifacts : ∀ (artifact : Artifact) number,
    state.folder.read? (artifact.file number) = start.folder.read? (artifact.file number)

variable {start middle state after : RunState σ} {first second entries : List JournalEntry}
variable {entry : JournalEntry}

theorem Collects.trans (hfirst : Collects start middle first)
    (hsecond : Collects middle after second) : Collects start after (first ++ second) where
  journal := by simp [hsecond.journal, hfirst.journal]
  deliveries := by simp [hfirst.deliveries, hsecond.deliveries]
  sinks := by simp [hsecond.sinks, hfirst.sinks]
  directories := hsecond.directories.trans hfirst.directories
  artifacts artifact number :=
    (hsecond.artifacts artifact number).trans (hfirst.artifacts artifact number)

theorem collects_of_eq (entries : List JournalEntry) (hentries : Journal.deliveries entries = [])
    (hexports : exports entries = []) (hjournal : after.journal = entries.reverse ++ state.journal)
    (hsinks : after.sinks = state.sinks) (hfolder : after.folder = state.folder) :
    Collects state after entries where
  journal := hjournal
  deliveries := hentries
  sinks := by simp [hsinks, hexports]
  directories := by rw [hfolder]
  artifacts := by simp [hfolder]

theorem collects_refl (state : RunState σ) : Collects state state [] :=
  collects_of_eq [] rfl rfl rfl rfl rfl

theorem collects_reported (message : String) (error : Error) (settings : Settings σ)
    (state : RunState σ) :
    Collects state (Run.reported message error settings state) [.reported message error] := by
  have hplain : Folder.Plain errorLogName := ⟨by decide, by decide, by decide, by decide⟩
  refine ⟨rfl, rfl, by simp [Run.reported, exports], Folder.directories_append _ _ _, ?_⟩
  intro artifact number
  exact Folder.read?_append hplain (Artifact.file_ne (by decide) artifact number).symm _

theorem collects_emitted (record : Record) (state : RunState σ) :
    Collects state
      { state with
        sinks := state.sinks.map (·.add record)
        journal := .exported record :: state.journal } [.exported record] :=
  ⟨rfl, rfl, rfl, rfl, fun _ _ => rfl⟩

/-- Something was collected since a state, and nothing else happened that concerns artifacts. -/
def Collected (start state : RunState σ) : Prop := ∃ entries, Collects start state entries

theorem Collected.of_collects (hcollected : Collected start state)
    (hcollects : Collects state after entries) : Collected start after := by
  obtain ⟨past, hpast⟩ := hcollected
  exact ⟨past ++ entries, hpast.trans hcollects⟩

theorem stable_collected (settings : Settings σ) (start : RunState σ) :
    Run.Stable settings (Collected start) where
  visits := {
    cursor := fun _ _ hstate => hstate.of_collects (collects_of_eq [] rfl rfl rfl rfl rfl)
    reported := fun state message error hstate =>
      hstate.of_collects (collects_reported message error settings state) }
  operands := {
    assigned := fun _ name value hstate =>
      hstate.of_collects (collects_of_eq [.assigned name value] rfl rfl rfl rfl rfl)
    queried := fun _ query hstate =>
      hstate.of_collects (collects_of_eq [.member query _] rfl rfl rfl rfl rfl) }
  erased _ _ hstate := hstate.of_collects (collects_of_eq [] rfl rfl rfl rfl rfl)
  emitted state record hstate := hstate.of_collects (collects_emitted record state)

/-- Something was done since a state that exported nothing and concerns no artifacts. -/
def Idled (start state : RunState σ) : Prop :=
  ∃ entries, Collects start state entries ∧ exports entries = []

theorem Idled.of_collects (hidled : Idled start state) (hcollects : Collects state after entries)
    (hexports : exports entries = []) : Idled start after := by
  obtain ⟨past, hpast, hnone⟩ := hidled
  exact ⟨past ++ entries, hpast.trans hcollects, by simp [hnone, hexports]⟩

theorem visitStable_idled (settings : Settings σ) (start : RunState σ) :
    Run.VisitStable settings (Idled start) where
  cursor _ _ hstate := hstate.of_collects (collects_of_eq [] rfl rfl rfl rfl rfl) rfl
  reported state message error hstate :=
    hstate.of_collects (collects_reported message error settings state) rfl

theorem operandStable_idled (settings : Settings σ) (start : RunState σ) :
    Run.OperandStable settings (Idled start) where
  assigned _ name value hstate :=
    hstate.of_collects (collects_of_eq [.assigned name value] rfl rfl rfl rfl rfl) rfl
  queried _ query hstate :=
    hstate.of_collects (collects_of_eq [.member query _] rfl rfl rfl rfl rfl) rfl

theorem retrievalStable_idled (settings : Settings σ) (start : RunState σ) :
    BlockRange.RetrievalStable settings (Idled start) where
  polled _ hstate := hstate.of_collects (collects_of_eq [.head _] rfl rfl rfl rfl rfl) rfl
  requested _ number hstate :=
    hstate.of_collects (collects_of_eq [.block number _] rfl rfl rfl rfl rfl) rfl
  withdrawn _ number hash hstate :=
    hstate.of_collects (collects_of_eq [.withdrawn number hash] rfl rfl rfl rfl rfl) rfl

/-- Blocks have been processed, and all that their records were for stands in the folder. -/
structure Flushed (sinks : List Sink) (processed : List (Block × List Record))
    (state : RunState σ) : Prop where
  idle : ∀ sink ∈ sinks, sink.Idle
  unchanged : state.sinks = sinks
  directories : state.folder.directories = []
  artifacts : ∀ (artifact : Artifact) number,
    state.folder.read? (artifact.file number) = artifact.remaining sinks processed number

/-- Between two states blocks were processed and their records written, unless a file could
not be written or had no name of its own. -/
def Flushes (state after : RunState σ) : Prop :=
  ∃ entries, after.journal = entries.reverse ++ state.journal ∧
    (Written entries → Unslashed entries → ∀ sinks past,
      Flushed sinks (processed past) state → Flushed sinks (processed (past ++ entries)) after)

theorem Flushes.trans (hfirst : Flushes start middle) (hsecond : Flushes middle after) :
    Flushes start after := by
  obtain ⟨first, hjournal, hmiddle⟩ := hfirst
  obtain ⟨second, hafter, hflushed⟩ := hsecond
  refine ⟨first ++ second, by simp [hafter, hjournal], ?_⟩
  intro hwritten hunslashed sinks past hstart
  rw [← List.append_assoc]
  have hwritten := written_append.mp hwritten
  have hunslashed := unslashed_append.mp hunslashed
  exact hflushed hwritten.2 hunslashed.2 _ _ (hmiddle hwritten.1 hunslashed.1 _ _ hstart)

theorem Idled.flushes (hidled : Idled state after) : Flushes state after := by
  obtain ⟨entries, hcollects, hnone⟩ := hidled
  refine ⟨entries, hcollects.journal, ?_⟩
  intro _ _ sinks past hflushed
  rw [processed_append_of_eq_nil hcollects.deliveries hnone]
  refine ⟨hflushed.idle, ?_, hcollects.directories.trans hflushed.directories, ?_⟩
  · rw [hcollects.sinks, hnone, hflushed.unchanged]
    exact List.map_id _
  · exact fun artifact number =>
      (hcollects.artifacts artifact number).trans (hflushed.artifacts artifact number)

end RunState

open RunState

section

variable {settings : Settings σ} {body : Run σ Unit} {state final : RunState σ} {block : Block}

/-- A visit that comes to its end has run the body, made the files of the block, and reported
if one could not be written. -/
theorem BlockRange.visit_ok (hvisit : (visit body block).run settings state = .ok () final) :
    ∃ done finished,
      (do Run.conclude s!"error processing block {Numeral.decimal block.number}" (← body.attempt)
        : Run σ Unit).run settings
          { state with
            cursor := .atBlock block
            journal := .delivered block :: state.journal } = .ok () done ∧
      (Run.conclude s!"error exporting block {Numeral.decimal block.number}"
        ((done.folder.writeAll (Sink.finishAll done.sinks (.block block.number)).1).2.elim (.ok ())
          .error)).run settings
          { done with
            sinks := (Sink.finishAll done.sinks (.block block.number)).2
            folder := (done.folder.writeAll (Sink.finishAll done.sinks (.block block.number)).1).1 }
            = .ok () finished ∧
      final = { finished with cursor := .empty } := by
  obtain ⟨_, _, hnote, hvisit⟩ := Run.of_bind_ok hvisit
  cases hnote
  obtain ⟨_, _, hcursor, hvisit⟩ := Run.of_bind_ok hvisit
  cases hcursor
  obtain ⟨outcome, finished, hinner, hvisit⟩ := Run.of_bind_ok hvisit
  obtain ⟨_, _, hcursor, hvisit⟩ := Run.of_bind_ok hvisit
  cases hcursor
  cases outcome with
  | error => cases hvisit
  | ok =>
      cases hvisit
      obtain ⟨outcome, ran, hbody, hrest⟩ := Run.of_bind_ok (Run.of_attempt_ok hinner)
      obtain ⟨_, done, hconclude, hrest⟩ := Run.of_bind_ok hrest
      obtain ⟨failure?, _, hfinish, hexport⟩ := Run.of_bind_ok hrest
      cases hfinish
      refine ⟨done, finished, ?_, hexport, rfl⟩
      rw [Run.run_bind, hbody]
      exact hconclude

/-- When a processed block ends, its artifacts are written from what was exported. -/
theorem RunState.Flushed.finish {sinks : List Sink} {blocks : List (Block × List Record)}
    {done : RunState σ} {entries : List JournalEntry} {folder : Folder}
    (hflushed : Flushed sinks blocks state)
    (hcollects : Collects
      { state with
        cursor := .atBlock block
        journal := .delivered block :: state.journal } done entries)
    (hunslashed : Unslashed entries)
    (hwrite : done.folder.writeAll (Sink.finishAll done.sinks (.block block.number)).1 =
      (folder, none)) :
    Flushed sinks (blocks ++ [(block, exports entries)])
      { done with
        sinks := (Sink.finishAll done.sinks (.block block.number)).2
        folder
        cursor := .empty } := by
  have hsinks : done.sinks = sinks.map fun sink => (exports entries).foldl Sink.add sink := by
    rw [← hflushed.unchanged]
    exact hcollects.sinks
  have hplain : ∀ file ∈ (Sink.finishAll done.sinks (.block block.number)).1,
      Folder.Plain file.1 := by
    rw [hsinks]
    exact Sink.plain_finishAll hflushed.idle hunslashed _
  refine ⟨hflushed.idle, ?_, ?_, ?_⟩
  · rw [hsinks]
    exact Sink.finishAll_idle hflushed.idle _ _
  · have hdirectories := Folder.directories_writeAll done.folder
      (Sink.finishAll done.sinks (.block block.number)).1
    rw [hwrite] at hdirectories
    exact hdirectories.trans (hcollects.directories.trans hflushed.directories)
  · intro artifact number
    rw [Artifact.remaining_concat, ← hflushed.artifacts]
    refine (Folder.read?_writeAll hplain hwrite _).trans ?_
    rw [hsinks, Sink.lastContents_finishAll hflushed.idle, hcollects.artifacts]

/-- The visit of a block processes it with all that its body exports, and then its artifacts
are written. -/
theorem flushes_visit (hbody : ∀ start, body.Upholds settings (Collected start))
    (hvisit : (BlockRange.visit body block).run settings state = .ok () final) :
    Flushes state final := by
  obtain ⟨done, finished, hprocess, hexport, rfl⟩ := BlockRange.visit_ok hvisit
  have hprocessed := ((hbody _).attempt.bind fun outcome =>
    Run.upholds_conclude (stable_collected settings _).visits _ outcome).of_ok
      ⟨[], collects_refl _⟩ hprocess
  obtain ⟨⟨entries, hcollects⟩, -⟩ := hprocessed
  rcases hwrite : done.folder.writeAll (Sink.finishAll done.sinks (.block block.number)).1 with
    ⟨folder, _ | error⟩
  · rw [hwrite] at hexport
    cases hexport
    refine ⟨.delivered block :: entries, by simp [hcollects.journal], ?_⟩
    intro _ hunslashed sinks past hflushed
    rw [processed_append_delivered hcollects.deliveries]
    exact hflushed.finish hcollects hunslashed hwrite
  · obtain ⟨path, cause, rfl⟩ := Folder.unwritten_of_writeAll (congrArg Prod.snd hwrite)
    rw [hwrite] at hexport
    simp only [Option.elim_some, Run.conclude] at hexport
    rw [Run.run_settle rfl] at hexport
    split at hexport <;> cases hexport
    refine ⟨.delivered block :: entries ++ [.reported
      s!"error exporting block {Numeral.decimal block.number}" (.unwritten path cause)],
      by simp [Run.reported, hcollects.journal], ?_⟩
    intro hwritten
    exact absurd ((written_append.mp hwritten).2 _ List.mem_cons_self) (by simp [Error.isUnwritten])

theorem flushes_turn (hbody : ∀ start, body.Upholds settings (Collected start))
    {window after : Window} {next number : Int}
    (hturn : (BlockRange.turn body window next).run settings state = .ok (after, number) final) :
    Flushes state final := by
  obtain ⟨outcome, fetched, hfetch, hrest⟩ := Run.of_bind_ok hturn
  have hstart : Idled state state := ⟨[], collects_refl state, rfl⟩
  have hfetched : Idled state fetched :=
    ((BlockRange.upholds_fetch (retrievalStable_idled settings state) window next).of_ok
      hstart hfetch).1
  split at hrest
  next block kept =>
    obtain ⟨_, visited, hvisit, hreturn⟩ := Run.of_bind_ok hrest
    cases hreturn
    exact hfetched.flushes.trans (flushes_visit hbody hvisit)
  next => cases hrest
  next error _ =>
    obtain ⟨_, settled, hsettle, hreturn⟩ := Run.of_bind_ok hrest
    cases hreturn
    exact ((Run.upholds_settle (visitStable_idled settings state) _ error).of_ok
      hfetched hsettle).1.flushes

/-- A range that has come to its end has written the records of the blocks that it processed. -/
theorem flushes_visitAll (hbody : ∀ start, body.Upholds settings (Collected start)) {first : Int}
    {last : Option Int}
    (hrun : (BlockRange.visitAll body first last).run settings state = .ok () final) :
    Flushes state final := by
  obtain ⟨_, _, hsettings, hvisits⟩ := Run.of_bind_ok hrun
  cases hsettings
  obtain ⟨window, next, hreaches⟩ := BlockRange.Reaches.start.of_visitFrom hvisits
  clear hvisits hrun
  induction hreaches with
  | start => exact RunState.Idled.flushes ⟨[], collects_refl state, rfl⟩
  | turn _ _ hturn ih => exact ih.trans (flushes_turn hbody hturn)

end

namespace Instruction

variable {settings : Settings σ} {further : χ → Run σ Unit}

theorem flushes_blocks
    (hfurther : ∀ instruction start, (further instruction).Upholds settings (Collected start))
    {first : Operand} {last : Option Operand} {body : List (Instruction χ)}
    (hfree : RangeFreeAll body) {state final : RunState σ}
    (hrun : ((blocks first last body).execute further).run settings state = .ok () final) :
    Flushes state final := by
  have hbody (start : RunState σ) : (executeAll further body).Upholds settings (Collected start) :=
    upholds_executeAll (stable_collected settings start) (fun i => hfurther i start) body hfree
  have hoperands := operandStable_idled settings state
  have hstart : Idled state state := ⟨[], collects_refl state, rfl⟩
  rw [execute] at hrun
  obtain ⟨_, _, hfirst, hrun⟩ := Run.of_bind_ok hrun
  obtain ⟨_, _, hbound, hrun⟩ := Run.of_bind_ok hrun
  obtain ⟨_, _, hlast, hrun⟩ := Run.of_bind_ok hrun
  obtain ⟨_, _, hbound?, hrun⟩ := Run.of_bind_ok hrun
  -- the bounds are evaluated before anything is visited
  have hidled := ((Run.upholds_evaluate hoperands first).of_ok hstart hfirst).1
  have hidled := ((Run.upholds_ofExcept _).of_ok hidled hbound).1
  have hidled := ((Run.upholds_evaluate? hoperands last).of_ok hidled hlast).1
  have hidled := ((Run.upholds_ofExcept _).of_ok hidled hbound?).1
  exact hidled.flushes.trans (flushes_visitAll hbody hrun)

/-- When a range has come to its end, each artifact of a block is there exactly if a block of this
number was processed with records for it, and then it holds the records of the last of these. -/
theorem read?_artifact
    (hfurther : ∀ instruction start, (further instruction).Upholds settings (Collected start))
    {first : Operand} {last : Option Operand} {body : List (Instruction χ)}
    (hfree : RangeFreeAll body) {state final : RunState σ} (hidle : ∀ sink ∈ state.sinks, sink.Idle)
    (hdirectories : state.folder.directories = []) (hfiles : state.folder.files = [])
    (hrun : ((blocks first last body).execute further).run settings state = .ok () final)
    (hwritten : Written (final.since state)) (hunslashed : Unslashed (final.since state))
    (artifact : Artifact) (number : Int) :
    final.folder.read? (artifact.file number) =
      artifact.remaining state.sinks (processed (final.since state)) number := by
  obtain ⟨entries, hjournal, hflushes⟩ := flushes_blocks hfurther hfree hrun
  rw [RunState.since_eq hjournal] at hwritten hunslashed ⊢
  have hstart : Flushed state.sinks (processed []) state :=
    ⟨hidle, rfl, hdirectories, fun artifact number => by
      simp [Folder.read?, hfiles, Keyed.get?, Artifact.remaining, processed]⟩
  exact (hflushes hwritten hunslashed _ _ hstart).artifacts artifact number

/-! ### Payments that a second branch does not have -/

def payment : Transaction where
  hash := .ofNat 32 1
  index := 0
  sender := .zero 20
  recipient := none
  value := 0
  gas := 0
  gasPrice := 0
  gasUsed := 0
  nonce := 0
  input := []
  success := true
  logs := []

/-- Settings of a run against a chain whose first branch has a payment in every block. The second
branch, which takes its place from block 2 on, has none. -/
def payingSettings : Settings Nat where
  client :=
    { BlockRange.forkingClient 2 2 [] with
      block number count :=
        (.ok { BlockRange.branchBlock 2 (2 ≤ count) number with
          transactions := if 2 ≤ count then [] else [payment] }, count + 1) }
  abortOnFailure := false
  patience := 100
  stamp := ""

/-- The blocks from 1 to 3. -/
def threeBlocks (body : List (Instruction Empty)) : Instruction Empty :=
  .blocks (.literal (.int 1)) (some (.literal (.int 3))) body

/-- A row for each block, and a line for each payment in it. -/
def payments : List (Instruction Empty) :=
  [.exportRow "blocks" [("payments", .chain "block.transactionCount")],
    .transactions none none [.exportLine [.literal (.str "paid")]]]

/-- A line before a range inside the visit of a block. -/
def nested : List (Instruction Empty) :=
  [.exportLine [.literal (.str "around")],
    .blocks (.literal (.int 5)) (some (.literal (.int 5))) []]

/-- Rows of two tables whose names lead to one file. -/
def aliased : List (Instruction Empty) :=
  [.exportRow "a" [("name", .literal (.str "a"))],
    .exportRow "./a" [("name", .literal (.str "b"))]]

/-- A state with streaming sinks for lines and for rows that have collected nothing. -/
def streamingStart : RunState Nat :=
  { BlockRange.forkingStart with sinks := [⟨.streaming, .lines []⟩, ⟨.streaming, .csv ',' []⟩] }

theorem idle_streamingStart : ∀ sink ∈ streamingStart.sinks, sink.Idle := by
  intro sink hsink
  simp only [streamingStart, List.mem_cons, List.not_mem_nil, or_false] at hsink
  rcases hsink with rfl | rfl <;> exact ⟨rfl, rfl⟩

def runThreeBlocks (body : List (Instruction Empty)) : Outcome Nat Unit :=
  ((threeBlocks body).execute (Empty.elim : Empty → Run Nat Unit)).run payingSettings streamingStart

/-- The entries of visiting three blocks. -/
def threeBlocksEntries (body : List (Instruction Empty)) : List JournalEntry :=
  (runThreeBlocks body).last.since streamingStart

/-- The table of block 2 is written anew for the second branch. -/
theorem read?_artifact_paying :
    (∀ instruction start, ((Empty.elim : Empty → Run Nat Unit) instruction).Upholds payingSettings
        (Collected start)) ∧
      RangeFreeAll payments ∧ (∀ sink ∈ streamingStart.sinks, sink.Idle) ∧
      streamingStart.folder.directories = [] ∧ streamingStart.folder.files = [] ∧
      runThreeBlocks payments = .ok () (runThreeBlocks payments).last ∧
      Written (threeBlocksEntries payments) ∧ Unslashed (threeBlocksEntries payments) ∧
      (processed (threeBlocksEntries payments)).map (·.1.number) = [1, 2, 2, 3] ∧
      (runThreeBlocks payments).last.folder.read? ((Artifact.table "blocks").file 2) =
        some "payments\n0\n" := by
  have hfurther (instruction : Empty) (start : RunState Nat) :
      ((Empty.elim : Empty → Run Nat Unit) instruction).Upholds payingSettings (Collected start) :=
    instruction.elim
  have hfree : RangeFreeAll payments := ⟨trivial, ⟨trivial, trivial⟩, trivial⟩
  have hrun : runThreeBlocks payments = .ok () (runThreeBlocks payments).last :=
    Outcome.eq_ok_last (by decide +kernel)
  have hwritten : Written (threeBlocksEntries payments) := by decide +kernel
  have hunslashed : Unslashed (threeBlocksEntries payments) := by decide +kernel
  have hremaining : (Artifact.table "blocks").remaining streamingStart.sinks
      (processed (threeBlocksEntries payments)) 2 = some "payments\n0\n" := by decide +kernel
  refine ⟨hfurther, hfree, idle_streamingStart, rfl, rfl, hrun, hwritten, hunslashed,
    by decide +kernel, ?_⟩
  rw [← hremaining]
  exact read?_artifact hfurther hfree idle_streamingStart rfl rfl hrun hwritten hunslashed
    (.table "blocks") 2

/-- What the last block with a number that was processed makes of an artifact. -/
def lastMade (artifact : Artifact) (entries : List JournalEntry) (number : Int) : Option String :=
  (((processed entries).filter (·.1.number = number)).getLast?).bind fun (_, records) =>
    artifact.contents streamingStart.sinks records

/-- Artifacts may hold something else than what the last processing of their block makes of them:
what an earlier one has made if the last has no records for them, what was exported for a block
around it if a range visits it in the middle of another block, and what another table got if
both names lead to one file. -/
theorem read?_ne_lastMade :
    (runThreeBlocks payments = .ok () (runThreeBlocks payments).last ∧
      Written (threeBlocksEntries payments) ∧
      lastMade .log (threeBlocksEntries payments) 2 = none ∧
      (runThreeBlocks payments).last.folder.read? (Artifact.log.file 2) = some "paid\n") ∧
    (runThreeBlocks nested = .ok () (runThreeBlocks nested).last ∧
      Written (threeBlocksEntries nested) ∧
      lastMade .log (threeBlocksEntries nested) 5 = none ∧
      (runThreeBlocks nested).last.folder.read? (Artifact.log.file 5) = some "around\n") ∧
    (runThreeBlocks aliased = .ok () (runThreeBlocks aliased).last ∧
      Written (threeBlocksEntries aliased) ∧
      lastMade (.table "a") (threeBlocksEntries aliased) 1 = some "name\na\n" ∧
      (runThreeBlocks aliased).last.folder.read? ((Artifact.table "a").file 1) =
        some "name\nb\n") := by
  refine ⟨⟨Outcome.eq_ok_last ?_, ?_⟩, ⟨Outcome.eq_ok_last ?_, ?_⟩, Outcome.eq_ok_last ?_, ?_⟩ <;>
    decide +kernel

end Instruction

end ChainExtract
