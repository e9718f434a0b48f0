import GroundedOps.Agent.Citations
import GroundedOps.Agent.Generation
import GroundedOps.Agent.Guardrails
import GroundedOps.Agent.Prompts
import GroundedOps.Core.Pricing

/-!
# The guarded agent loop

Seed retrieval, then a loop of model calls and tool calls, then a grounded
answer. The collaborators of the orchestrator are arbitrary: each of them answers
as a function of everything that has happened so far, which the log records
together with the events yielded to the caller. An abandoned run is a prefix of
the log of a run.
-/

namespace GroundedOps.Agent

open Python Llm Retrieval

variable {F : Type}

/-- The configuration the loop reads. -/
structure Settings where
  retrievalTopK : ℕ
  maxAgentSteps : ℕ
  perRequestTokenBudget : ℕ
  toolTimeoutSeconds : ℕ
  maxToolRetries : ℕ
  maxOutputTokens : ℕ

structure ToolOutcome (F : Type) where
  text : Text
  structured : Json F
  isError : Bool

structure TraceStep (F : Type) where
  step : ℕ
  tool : Text
  arguments : Json F
  latencyMs : ℚ
  resultSummary : Text
  isError : Bool

inductive StopReason
  | answered
  | stepCap
  | tokenBudget
  deriving DecidableEq, Repr

/-- The data of the closing event. -/
structure Done where
  usedIndices : List ℕ
  usage : LLMUsage
  costUsd : ℚ
  model : Text
  steps : ℕ
  stopReason : StopReason

/-- One streamed event. -/
inductive AgentEvent (F : Type)
  | seeding
  | planning (step : ℕ)
  | toolCall (tool : Text) (arguments : Json F)
  | toolResult (tool summary : Text) (isError : Bool) (latencyMs : Option ℚ)
  | token (text : Text)
  | sources (sources : List Source)
  | trace (trace : List (TraceStep F))
  | done (data : Done)

/-- What a provider is asked: `maxTokens` only to complete, `tools` unless they are withheld. -/
structure Request (F : Type) where
  system : Text
  messages : List (LLMMessage F)
  tools : Option (List (ToolSpec F))
  maxTokens : Option ℕ

/-- One entry of the history of a run. `render` marks that records were written
into a message. -/
inductive Action (F : Type)
  | emit (event : AgentEvent F)
  | retrieve (question : Text) (topK : ℤ) (filters : Option SearchFilters)
      (result : Except Exn (List (RetrievedChunk F)))
  | listTools (result : Except Exn (List (ToolSpec F)))
  | countTokens (request : Request F) (result : Except Exn ℤ)
  | complete (request : Request F) (result : Except Exn (LLMResponse F))
  | call (tool : Text) (arguments : Json F) (timeout : ℕ) (result : Except Exn (ToolOutcome F))
  | render (entries : List CitationEntry)

/-- The collaborators of the orchestrator, and the clock. -/
structure Services (F : Type) where
  py : Interpreter F
  modelName : Text
  retrieve : List (Action F) → Text → ℤ → Option SearchFilters →
    Except Exn (List (RetrievedChunk F))
  listTools : List (Action F) → Except Exn (List (ToolSpec F))
  countTokens : List (Action F) → Request F → Except Exn ℤ
  complete : List (Action F) → Request F → Except Exn (LLMResponse F)
  call : List (Action F) → Text → Json F → ℕ → Except Exn (ToolOutcome F)
  perfCounter : List (Action F) → ℚ

/-- The variables of a run, and its history. -/
structure Run (F : Type) where
  registry : CitationRegistry := .empty
  messages : List (LLMMessage F) := []
  trace : List (TraceStep F) := []
  cycles : CycleDetector := {}
  budget : TokenBudget
  usage : LLMUsage := 0
  model : Text
  log : List (Action F) := []

abbrev AgentM (F : Type) := EStateM Exn (Run F)

def summary (text : Text) : Text := (join " ".toList (split text)).take 200

/-- `round(x, 1)` in exact arithmetic: the nearest tenth, ties to the even one. -/
def roundTenth (x : ℚ) : ℚ :=
  let n := ⌊10 * x⌋
  let rest := 10 * x - n
  if rest < 1 / 2 ∨ rest = 1 / 2 ∧ n % 2 = 0 then n / 10 else (n + 1) / 10

section ChunkRecords

variable (py : Interpreter F)

/-- `item.get(key) or default` -/
def getOr (members : List (Text × Json F)) (key : Text) (default : Json F) : Json F :=
  match Json.lookup key members with
  | some v => if v.truthy py then v else default
  | none => default

def getStr (members : List (Text × Json F)) (key : Text) : Text :=
  ((Json.lookup key members).getD (.str [])).toStr py

/-- The chunk of one item of a result list; items without a chunk id are skipped. -/
def chunkRecord (item : Json F) : Except Exn (Option (RetrievedChunk F)) :=
  match item with
  | .obj members =>
    match Json.lookup "chunk_id".toList members with
    | none => .ok none
    | some chunkId => do
      let content := (getOr py members "snippet".toList
        (getOr py members "content".toList (.str []))).toStr py
      let charStart ← (getOr py members "char_start".toList (.int 0)).toInt py
      let charEnd ← (getOr py members "char_end".toList (.int 0)).toInt py
      let score ← (getOr py members "score".toList (.float py.zero)).toFloat py
      .ok (some
        { chunkId := chunkId.toStr py
          docId := getStr py members "doc_id".toList
          sourceType := getStr py members "source_type".toList
          title := getStr py members "title".toList
          content, charStart, charEnd, score
          retriever := "tool".toList })
  | _ => .ok none

def chunkRecords : List (Json F) → Except Exn (List (RetrievedChunk F))
  | [] => .ok []
  | item :: items => do
    let chunk ← chunkRecord py item
    let chunks ← chunkRecords items
    .ok (chunk.toList ++ chunks)

/-- The data of an outcome: its structured part, or else its text read as JSON. -/
def outcomeData (outcome : ToolOutcome F) : Except Exn (Json F) :=
  match outcome.structured with
  | .null =>
    match py.loads outcome.text with
    | .error .valueError => .ok .null
    | .error .typeError => .ok .null
    | result => result
  | data => .ok data

/-- Pull chunk records out of a tool result. -/
def extractChunkRecords (outcome : ToolOutcome F) : Except Exn (List (RetrievedChunk F)) := do
  let data ← outcomeData py outcome
  let unwrapped :=
    match data with
    | .obj members => (Json.lookup "result".toList members).getD data
    | _ => data
  match unwrapped with
  | .arr items => chunkRecords py items
  | _ => .ok []

end ChunkRecords

namespace Orchestrator

variable (svc : Services F) (settings : Settings)

def act (action : Action F) : AgentM F Unit := modify fun s => { s with log := s.log ++ [action] }

def emit (event : AgentEvent F) : AgentM F Unit := act (.emit event)

def send (message : LLMMessage F) : AgentM F Unit :=
  modify fun s => { s with messages := s.messages ++ [message] }

def addTrace (step : TraceStep F) : AgentM F Unit :=
  modify fun s => { s with trace := s.trace ++ [step] }

/-- Ask a collaborator and keep the answer, whether it is a result or an exception. -/
def attempt {β : Type} (answer : List (Action F) → Except Exn β)
    (record : Except Exn β → Action F) : AgentM F (Except Exn β) := do
  let s ← get
  act (record (answer s.log))
  pure (answer s.log)

def ofExcept {β : Type} : Except Exn β → AgentM F β
  | .ok b => pure b
  | .error e => throw e

def await {β : Type} (answer : List (Action F) → Except Exn β)
    (record : Except Exn β → Action F) : AgentM F β := do
  ofExcept (← attempt answer record)

def count (tools : List (ToolSpec F)) : AgentM F ℤ := do
  let s ← get
  let request : Request F := ⟨agentSystem, s.messages, some tools, none⟩
  await (svc.countTokens · request) (.countTokens request)

/-- A completion; its usage and model are accounted for at once. -/
def complete (tools : Option (List (ToolSpec F))) : AgentM F (LLMResponse F) := do
  let s ← get
  let request : Request F := ⟨agentSystem, s.messages, tools, some settings.maxOutputTokens⟩
  let response ← await (svc.complete · request) (.complete request)
  modify fun s =>
    { s with
      usage := s.usage + response.usage
      model := if response.model.isEmpty then s.model else response.model }
  pure response

def stopUsingTools : Text :=
  "Stop using tools. Give your final grounded answer now with [n] citations.".toList

def finalCompletion : AgentM F (LLMResponse F) := do
  send (.user stopUsingTools)
  complete svc settings none

/-- The retry loop; `left` counts the retries that remain. -/
def callWithRetries (tc : ToolCall F) (start : ℚ) (left : ℕ) : AgentM F (ToolOutcome F × ℚ) := do
  let result ← attempt (svc.call · tc.name tc.arguments settings.toolTimeoutSeconds)
    (.call tc.name tc.arguments settings.toolTimeoutSeconds)
  let s ← get
  let elapsed := (svc.perfCounter s.log - start) * 1000
  match result with
  | .ok outcome => pure (outcome, elapsed)
  | .error (.toolError message) =>
    match left with
    | 0 => pure (⟨"Tool error: ".toList ++ message, .null, true⟩, elapsed)
    | left + 1 => callWithRetries tc start left
  | .error e => throw e

def searchResults : Text := "Search results (cite these by index):\n".toList

def registerAndFormat (outcome : ToolOutcome F) : AgentM F Text := do
  let chunks ← ofExcept (extractChunkRecords svc.py outcome)
  if chunks.isEmpty then pure outcome.text
  else
    let s ← get
    let added := s.registry.add chunks
    let entries := added.1.entriesFor (added.2.map Nat.cast)
    modify fun s => { s with registry := added.1 }
    act (.render entries)
    pure (searchResults ++ renderRecords entries)

def duplicateBlocked : Text := "blocked: duplicate call".toList

def duplicateAdvice : Text :=
  "Duplicate call blocked. Try a different approach or answer.".toList

def runTool (step : ℕ) (tc : ToolCall F) : AgentM F Unit := do
  emit (.toolCall tc.name tc.arguments)
  let s ← get
  let checked := s.cycles.isRepeat svc.py tc.name tc.arguments
  modify fun s => { s with cycles := checked.2 }
  if checked.1 then
    addTrace ⟨step, tc.name, tc.arguments, 0, duplicateBlocked, true⟩
    send (.toolResult tc.id duplicateAdvice true)
    emit (.toolResult tc.name duplicateBlocked true none)
  else
    let s ← get
    let called ← callWithRetries svc settings tc (svc.perfCounter s.log) settings.maxToolRetries
    let content ← registerAndFormat svc called.1
    addTrace ⟨step, tc.name, tc.arguments, called.2, summary called.1.text, called.1.isError⟩
    send (.toolResult tc.id content called.1.isError)
    emit (.toolResult tc.name (summary called.1.text) called.1.isError (some (roundTenth called.2)))

/-- The body of the planning loop: `some` if it breaks with an answer. -/
def planStep (tools : List (ToolSpec F)) (step : ℕ) : AgentM F (Option (Text × StopReason)) := do
  let projected ← count svc tools
  let s ← get
  if !s.budget.canAfford projected then
    let final ← finalCompletion svc settings
    pure (some (final.text, .tokenBudget))
  else
    emit (.planning step)
    let response ← complete svc settings (some tools)
    modify fun s => { s with budget := s.budget.reconcile response.usage }
    if response.toolCalls.isEmpty then
      pure (some (response.text, .answered))
    else
      send { role := .assistant
             content := if response.text.isEmpty then none else some response.text
             toolCalls := response.toolCalls }
      forM response.toolCalls (runTool svc settings step)
      pure none

/-- The planning loop with its `else` branch; `left` counts the steps that remain. -/
def planLoop (tools : List (ToolSpec F)) : ℕ → ℕ → AgentM F (Text × StopReason × ℕ)
  | 0, step => do
    let final ← finalCompletion svc settings
    pure (final.text, .stepCap, step)
  | left + 1, step => do
    match ← planStep svc settings tools step with
    | some (text, reason) => pure (text, reason, step)
    | none => planLoop tools left (step + 1)

def tokenChunk : ℕ := 24

/-- `top_k or retrieval_top_k` -/
def effectiveTopK (topK : Option ℤ) : ℤ :=
  match topK with
  | some k => if k = 0 then settings.retrievalTopK else k
  | none => settings.retrievalTopK

/-- Retrieval and the opening message. -/
def seed (question : Text) (topK : Option ℤ) (filters : Option SearchFilters) :
    AgentM F (List (ToolSpec F)) := do
  emit .seeding
  let k := effectiveTopK settings topK
  let chunks ← await (svc.retrieve · question k filters) (.retrieve question k filters)
  modify fun s => { s with registry := (s.registry.add chunks).1 }
  let tools ← await svc.listTools .listTools
  let s ← get
  act (.render s.registry.entries)
  send (.user (buildAgentPrompt question s.registry))
  pure tools

/-- Validation of the answer and the closing events. -/
def deliver (finalText : Text) (stopReason : StopReason) (step : ℕ) : AgentM F Unit := do
  let s ← get
  let (cleaned, used) ← ofExcept (validateAndStrip finalText s.registry)
  forM (cleaned.toChunks tokenChunk) fun text => emit (.token text)
  emit (.sources (sourcesFor s.registry used))
  emit (.trace s.trace)
  emit (.done
    { usedIndices := used
      usage := s.usage
      costUsd := Core.costUsd s.model s.usage.inputTokens s.usage.outputTokens
      model := s.model
      steps := step
      stopReason })

def events (question : Text) (topK : Option ℤ) (filters : Option SearchFilters) :
    AgentM F Unit := do
  let tools ← seed svc settings question topK filters
  let (finalText, stopReason, step) ← planLoop svc settings tools settings.maxAgentSteps 0
  deliver finalText stopReason step

/-- The state a request starts in. -/
def start : Run F :=
  { budget := ⟨settings.perRequestTokenBudget, settings.maxOutputTokens, 0⟩
    model := svc.modelName }

end Orchestrator

end GroundedOps.Agent
