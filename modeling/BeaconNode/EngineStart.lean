import BeaconNode.GossipService

namespace BeaconNode.EngineStart

open Words TextStream Records PeerHandshake GossipService

/-- std::stoi: space and a sign are skipped, what follows the digits is
ignored, and it throws without a digit or beyond an int. -/
def stoi (text : Bytes) : Option Int :=
  let text := text.dropWhile isSpace
  let negative := text.head? = some 45
  let digits := (if negative ∨ text.head? = some 43 then text.tail else text).takeWhile isDigit
  if digits = [] then none
  else
    let value : Int := if negative then -decimalValue digits else decimalValue digits
    if -2 ^ 31 ≤ value ∧ value < 2 ^ 31 then some value else none

def parsePort (value : Bytes) : Option UInt16 :=
  match stoi value with
  | none => none
  | some parsed => if parsed ≤ 0 ∨ 65535 < parsed then none else some (UInt16.ofNat parsed.toNat)

structure NodeConfig where
  nodeId : Bytes := ascii "dev-node"
  listenPort : UInt16 := 43170
  controlPort : UInt16 := 43171
  deriving DecidableEq

structure Settings where
  configPath : Bytes := ascii "config/beaconnode.example.toml"
  runOnce : Bool := false
  node : NodeConfig := {}
  requireSignatures : Bool := false
  seedNodes : List Bytes := []
  deriving DecidableEq

def usage : Bytes :=
  ascii "beacon-engine [--config <path>] [--node-id <id>] [--listen-port <port>] " ++
    ascii "[--control-port <port>] [--seed-node <host:port>] [--require-signatures] [--once]\n"

/-- The engine goes on with its settings, or has printed something and
returned. -/
inductive Outcome
  | run (settings : Settings)
  | exit (code : Nat) (out err : Bytes)
  deriving DecidableEq

def unknownArgument (arg : Bytes) : Outcome := .exit 2 usage (ascii "unknown argument: " ++ arg ++ ascii "\n")

def parseArguments (settings : Settings) : List Bytes → Outcome
  | [] => .run settings
  | arg :: rest =>
      if arg = ascii "--help" then .exit 0 usage []
      else if arg = ascii "--once" then parseArguments { settings with runOnce := true } rest
      else if arg = ascii "--require-signatures" then parseArguments { settings with requireSignatures := true } rest
      else
        match rest with
        | [] => unknownArgument arg
        | value :: rest =>
            if arg = ascii "--config" then parseArguments { settings with configPath := value } rest
            else if arg = ascii "--node-id" then
              parseArguments { settings with node := { settings.node with nodeId := value } } rest
            else if arg = ascii "--listen-port" then
              match parsePort value with
              | none => .exit 2 [] (ascii "invalid listen port\n")
              | some port => parseArguments { settings with node := { settings.node with listenPort := port } } rest
            else if arg = ascii "--control-port" then
              match parsePort value with
              | none => .exit 2 [] (ascii "invalid control port\n")
              | some port => parseArguments { settings with node := { settings.node with controlPort := port } } rest
            else if arg = ascii "--seed-node" then
              parseArguments { settings with seedNodes := settings.seedNodes ++ [value] } rest
            else unknownArgument arg

def colon : UInt8 := 58

/-- The peer for a seed. A port that is no number leaves the engine's own. -/
def seedPeer (node : NodeConfig) (seed : Bytes) : GossipPeer :=
  if seed.contains colon then
    let host := seed.takeWhile (· ≠ colon)
    let port := match stoi (seed.drop (host.length + 1)) with
      | none => node.controlPort
      | some parsed => UInt16.ofInt parsed
    ⟨[], host, if 0 < port then port - 1 else 43170, port⟩
  else ⟨[], seed, node.listenPort, node.controlPort⟩

def seedPeers (settings : Settings) : List GossipPeer :=
  settings.seedNodes.foldl (fun peers seed => addPeer peers (seedPeer settings.node seed)) []

inductive Argument
  | config (path : Bytes)
  | nodeId (id : Bytes)
  | listenPort (value : Bytes)
  | controlPort (value : Bytes)
  | seedNode (seed : Bytes)
  | requireSignatures
  | once

def Argument.words : Argument → List Bytes
  | .config path => [ascii "--config", path]
  | .nodeId id => [ascii "--node-id", id]
  | .listenPort value => [ascii "--listen-port", value]
  | .controlPort value => [ascii "--control-port", value]
  | .seedNode seed => [ascii "--seed-node", seed]
  | .requireSignatures => [ascii "--require-signatures"]
  | .once => [ascii "--once"]

def Argument.seed : Argument → Option Bytes
  | .seedNode seed => some seed
  | _ => none

/-- What an argument does to the settings, unless its port is none. -/
def Argument.apply (settings : Settings) : Argument → Option Settings
  | .config path => some { settings with configPath := path }
  | .nodeId id => some { settings with node := { settings.node with nodeId := id } }
  | .listenPort value =>
      (parsePort value).map (fun port => { settings with node := { settings.node with listenPort := port } })
  | .controlPort value =>
      (parsePort value).map (fun port => { settings with node := { settings.node with controlPort := port } })
  | .seedNode seed => some { settings with seedNodes := settings.seedNodes ++ [seed] }
  | .requireSignatures => some { settings with requireSignatures := true }
  | .once => some { settings with runOnce := true }

def switches : List Bytes := [ascii "--help", ascii "--once", ascii "--require-signatures"]

def valued : List Bytes :=
  [ascii "--config", ascii "--node-id", ascii "--listen-port", ascii "--control-port", ascii "--seed-node"]

/-- How the loop over the arguments ends, by what is left of them. -/
inductive Ends (settings : Settings) : List Bytes → Outcome → Prop
  | done : Ends settings [] (.run settings)
  | help (rest : List Bytes) : Ends settings (ascii "--help" :: rest) (.exit 0 usage [])
  | listenPort (value : Bytes) (rest : List Bytes) (h : parsePort value = none) :
      Ends settings (ascii "--listen-port" :: value :: rest) (.exit 2 [] (ascii "invalid listen port\n"))
  | controlPort (value : Bytes) (rest : List Bytes) (h : parsePort value = none) :
      Ends settings (ascii "--control-port" :: value :: rest) (.exit 2 [] (ascii "invalid control port\n"))
  | unknown (arg : Bytes) (rest : List Bytes) (hs : arg ∉ switches) (hv : arg ∈ valued → rest = []) :
      Ends settings (arg :: rest) (unknownArgument arg)

variable {settings next : Settings}

inductive PortFlag
  | listen
  | control

def PortFlag.word : PortFlag → Bytes
  | .listen => ascii "--listen-port"
  | .control => ascii "--control-port"

def PortFlag.message : PortFlag → Bytes
  | .listen => ascii "invalid listen port\n"
  | .control => ascii "invalid control port\n"

def PortFlag.set (settings : Settings) (port : UInt16) : PortFlag → Settings
  | .listen => { settings with node := { settings.node with listenPort := port } }
  | .control => { settings with node := { settings.node with controlPort := port } }

theorem parseArguments_port (flag : PortFlag) (settings : Settings) (value : Bytes) (rest : List Bytes) :
    parseArguments settings (flag.word :: value :: rest) =
      match parsePort value with
      | none => .exit 2 [] flag.message
      | some port => parseArguments (flag.set settings port) rest := by
  have hswitches : flag.word ≠ ascii "--help" ∧ flag.word ≠ ascii "--once" ∧
      flag.word ≠ ascii "--require-signatures" := by
    cases flag <;> decide
  rw [parseArguments, if_neg hswitches.1, if_neg hswitches.2.1, if_neg hswitches.2.2]
  dsimp only
  cases flag with
  | listen =>
      rw [if_neg (by decide), if_neg (by decide)]
      exact if_pos rfl
  | control =>
      rw [if_neg (by decide), if_neg (by decide), if_neg (by decide)]
      exact if_pos rfl

theorem parseArguments_words {argument : Argument} (h : argument.apply settings = some next) (rest : List Bytes) :
    parseArguments settings (argument.words ++ rest) = parseArguments next rest := by
  cases argument with
  | listenPort value =>
      rw [Argument.apply, Option.map_eq_some_iff] at h
      obtain ⟨port, hport, rfl⟩ := h
      refine (parseArguments_port .listen settings value rest).trans ?_
      rw [hport]
      rfl
  | controlPort value =>
      rw [Argument.apply, Option.map_eq_some_iff] at h
      obtain ⟨port, hport, rfl⟩ := h
      refine (parseArguments_port .control settings value rest).trans ?_
      rw [hport]
      rfl
  | config | nodeId | seedNode =>
      obtain rfl := Option.some.inj h
      rfl
  | requireSignatures =>
      obtain rfl := Option.some.inj h
      rw [Argument.words, List.cons_append, List.nil_append, parseArguments.eq_def]
      dsimp only
      rw [if_neg (by decide), if_neg (by decide), if_pos rfl]
  | once =>
      obtain rfl := Option.some.inj h
      rw [Argument.words, List.cons_append, List.nil_append, parseArguments.eq_def]
      dsimp only
      rw [if_neg (by decide), if_pos rfl]

theorem parseArguments_ends {rest : List Bytes} {outcome : Outcome} (h : Ends settings rest outcome) :
    parseArguments settings rest = outcome := by
  cases h with
  | done => rfl
  | help rest =>
      rw [parseArguments.eq_def]
      exact if_pos rfl
  | listenPort value rest h =>
      refine (parseArguments_port .listen settings value rest).trans ?_
      rw [h]
      rfl
  | controlPort value rest h =>
      refine (parseArguments_port .control settings value rest).trans ?_
      rw [h]
      rfl
  | unknown arg rest hs hv =>
      simp only [switches, List.mem_cons, List.not_mem_nil, or_false, not_or] at hs
      rw [parseArguments.eq_def]
      dsimp only
      rw [if_neg hs.1, if_neg hs.2.1, if_neg hs.2.2]
      cases rest with
      | nil => rfl
      | cons value rest =>
          have hvalued : arg ∉ valued := fun hmem => List.cons_ne_nil _ _ (hv hmem)
          simp only [valued, List.mem_cons, List.not_mem_nil, or_false, not_or] at hvalued
          obtain ⟨hconfig, hnode, hlisten, hcontrol, hseed⟩ := hvalued
          dsimp only
          rw [if_neg hconfig, if_neg hnode, if_neg hlisten, if_neg hcontrol, if_neg hseed]

theorem ends_or_argument (settings : Settings) (args : List Bytes) :
    (∃ outcome, Ends settings args outcome) ∨
      ∃ (argument : Argument) (next : Settings) (rest : List Bytes),
        args = argument.words ++ rest ∧ argument.apply settings = some next := by
  cases args with
  | nil => exact Or.inl ⟨_, .done⟩
  | cons arg rest =>
      by_cases hs : arg ∈ switches
      · simp only [switches, List.mem_cons, List.not_mem_nil, or_false] at hs
        rcases hs with rfl | rfl | rfl
        · exact Or.inl ⟨_, .help rest⟩
        · exact Or.inr ⟨.once, _, rest, rfl, rfl⟩
        · exact Or.inr ⟨.requireSignatures, _, rest, rfl, rfl⟩
      · by_cases hv : arg ∈ valued
        · cases rest with
          | nil => exact Or.inl ⟨_, .unknown arg [] hs (fun _ => rfl)⟩
          | cons value rest =>
              simp only [valued, List.mem_cons, List.not_mem_nil, or_false] at hv
              rcases hv with rfl | rfl | rfl | rfl | rfl
              · exact Or.inr ⟨.config value, _, rest, rfl, rfl⟩
              · exact Or.inr ⟨.nodeId value, _, rest, rfl, rfl⟩
              · cases hport : parsePort value with
                | none => exact Or.inl ⟨_, .listenPort value rest hport⟩
                | some port => exact Or.inr ⟨.listenPort value, _, rest, rfl, by rw [Argument.apply, hport]; rfl⟩
              · cases hport : parsePort value with
                | none => exact Or.inl ⟨_, .controlPort value rest hport⟩
                | some port => exact Or.inr ⟨.controlPort value, _, rest, rfl, by rw [Argument.apply, hport]; rfl⟩
              · exact Or.inr ⟨.seedNode value, _, rest, rfl, rfl⟩
        · exact Or.inl ⟨_, .unknown arg rest hs (fun hmem => absurd hmem hv)⟩

theorem parseArguments_flatMap {arguments : List Argument}
    (h : arguments.foldlM Argument.apply settings = some next) (rest : List Bytes) :
    parseArguments settings (arguments.flatMap Argument.words ++ rest) = parseArguments next rest := by
  induction arguments generalizing settings with
  | nil =>
      obtain rfl := Option.some.inj h
      rfl
  | cons argument arguments ih =>
      rw [List.foldlM_cons, Option.bind_eq_bind, Option.bind_eq_some_iff] at h
      obtain ⟨middle, hfirst, hrest⟩ := h
      rw [List.flatMap_cons, List.append_assoc, parseArguments_words hfirst, ih hrest]

theorem exists_arguments (settings : Settings) (args : List Bytes) :
    ∃ (arguments : List Argument) (next : Settings) (rest : List Bytes) (outcome : Outcome),
      args = arguments.flatMap Argument.words ++ rest ∧ arguments.foldlM Argument.apply settings = some next ∧
        Ends next rest outcome := by
  induction hn : args.length using Nat.strong_induction_on generalizing settings args with
  | _ n ih =>
      obtain ⟨outcome, hends⟩ | ⟨argument, middle, rest, rfl, hfirst⟩ := ends_or_argument settings args
      · exact ⟨[], settings, args, outcome, rfl, rfl, hends⟩
      · have hshorter : rest.length < n := by
          rw [← hn, List.length_append]
          cases argument <;> simp [Argument.words]
        obtain ⟨arguments, next, rest', outcome, rfl, hrest, hends⟩ := ih _ hshorter middle rest rfl
        refine ⟨argument :: arguments, next, rest', outcome, ?_, ?_, hends⟩
        · rw [List.flatMap_cons, List.append_assoc]
        · rw [List.foldlM_cons, hfirst]
          exact hrest

/-- What the engine makes of its command line: it takes the arguments in their
order up to the first that it cannot take, and what that is decides how it
ends. -/
theorem parseArguments_iff (settings : Settings) (args : List Bytes) (outcome : Outcome) :
    parseArguments settings args = outcome ↔
      ∃ (arguments : List Argument) (next : Settings) (rest : List Bytes),
        args = arguments.flatMap Argument.words ++ rest ∧ arguments.foldlM Argument.apply settings = some next ∧
          Ends next rest outcome := by
  constructor
  · rintro rfl
    obtain ⟨arguments, next, rest, outcome, rfl, harguments, hends⟩ := exists_arguments settings args
    refine ⟨arguments, next, rest, rfl, harguments, ?_⟩
    rwa [parseArguments_flatMap harguments, parseArguments_ends hends]
  · rintro ⟨arguments, next, rest, rfl, harguments, hends⟩
    rw [parseArguments_flatMap harguments, parseArguments_ends hends]

theorem parsePort_pos {value : Bytes} {port : UInt16} (h : parsePort value = some port) : 0 < port := by
  rw [parsePort] at h
  cases hstoi : stoi value with
  | none =>
      rw [hstoi] at h
      cases h
  | some parsed =>
      rw [hstoi] at h
      dsimp only at h
      split at h
      · cases h
      next hrange =>
        obtain rfl := Option.some.inj h
        rw [UInt16.lt_iff_toNat_lt, UInt16.toNat_ofNat']
        change 0 < parsed.toNat % 65536
        omega

structure Settled (settings next : Settings) (seeds : List Bytes) : Prop where
  seedNodes : next.seedNodes = settings.seedNodes ++ seeds
  listenPort : 0 < settings.node.listenPort → 0 < next.node.listenPort
  controlPort : 0 < settings.node.controlPort → 0 < next.node.controlPort

theorem settled_apply {argument : Argument} (h : argument.apply settings = some next) :
    Settled settings next argument.seed.toList := by
  cases argument with
  | listenPort value =>
      rw [Argument.apply, Option.map_eq_some_iff] at h
      obtain ⟨port, hport, rfl⟩ := h
      exact ⟨(List.append_nil _).symm, fun _ => parsePort_pos hport, id⟩
  | controlPort value =>
      rw [Argument.apply, Option.map_eq_some_iff] at h
      obtain ⟨port, hport, rfl⟩ := h
      exact ⟨(List.append_nil _).symm, id, fun _ => parsePort_pos hport⟩
  | seedNode seed =>
      obtain rfl := Option.some.inj h
      exact ⟨rfl, id, id⟩
  | config | nodeId | requireSignatures | once =>
      obtain rfl := Option.some.inj h
      exact ⟨(List.append_nil _).symm, id, id⟩

theorem settled_foldlM {arguments : List Argument} (h : arguments.foldlM Argument.apply settings = some next) :
    Settled settings next (arguments.filterMap Argument.seed) := by
  induction arguments generalizing settings with
  | nil =>
      obtain rfl := Option.some.inj h
      exact ⟨(List.append_nil _).symm, id, id⟩
  | cons argument arguments ih =>
      rw [List.foldlM_cons, Option.bind_eq_bind, Option.bind_eq_some_iff] at h
      obtain ⟨middle, hfirst, hrest⟩ := h
      have hf := settled_apply hfirst
      have hr := ih hrest
      refine ⟨?_, hr.listenPort ∘ hf.listenPort, hr.controlPort ∘ hf.controlPort⟩
      have hseeds : (argument :: arguments).filterMap Argument.seed =
          argument.seed.toList ++ arguments.filterMap Argument.seed := by
        cases argument <;> rfl
      rw [hr.seedNodes, hf.seedNodes, hseeds, List.append_assoc]

def seedAddress (node : NodeConfig) (seed : Bytes) : Bytes × UInt16 := (seedPeer node seed).address

theorem mem_addPeer (peers : List GossipPeer) (peer : GossipPeer) (address : Bytes × UInt16) :
    address ∈ (addPeer peers peer).map GossipPeer.address ↔
      address ∈ peers.map GossipPeer.address ∨ address = peer.address := by
  rw [addPeer]
  split
  next hknown =>
    refine ⟨Or.inl, fun h => h.elim id ?_⟩
    rintro rfl
    obtain ⟨existing, hm, he⟩ := List.any_eq_true.mp hknown
    simp only [Bool.and_eq_true, decide_eq_true_eq] at he
    exact List.mem_map.mpr ⟨existing, hm, Prod.ext he.1 he.2⟩
  next => rw [List.map_append, List.map_singleton, List.mem_append, List.mem_singleton]

theorem seedPeers_addresses (node : NodeConfig) (seeds : List Bytes) {peers : List GossipPeer}
    (h : (peers.map GossipPeer.address).Nodup) :
    let all := seeds.foldl (fun peers seed => addPeer peers (seedPeer node seed)) peers
    (all.map GossipPeer.address).Nodup ∧ ∀ address, address ∈ all.map GossipPeer.address ↔
      address ∈ peers.map GossipPeer.address ∨ address ∈ seeds.map (seedAddress node) := by
  induction seeds generalizing peers with
  | nil => exact ⟨h, fun address => by simp⟩
  | cons seed seeds ih =>
      obtain ⟨hnodup, hmem⟩ := ih (addPeer_nodup h (seedPeer node seed))
      refine ⟨hnodup, fun address => ?_⟩
      rw [List.foldl_cons, hmem, mem_addPeer, List.map_cons, List.mem_cons, or_assoc]
      rfl

/-- Each gossip round of an engine picks three of the addresses that its seeds
name, or all of them where they are fewer, none of them twice and no other. -/
theorem rounds_pick_seeds (args : List Bytes) (settings : Settings) (h : parseArguments {} args = .run settings)
    (S : Shuffle) :
    ∃ arguments : List Argument, args = arguments.flatMap Argument.words ∧
      0 < settings.node.listenPort ∧ 0 < settings.node.controlPort ∧
      let seeds := (arguments.filterMap Argument.seed).map (seedAddress settings.node)
      let round := (pickPeers S (seedPeers settings)).map GossipPeer.address
      round.Nodup ∧ round ⊆ seeds ∧ round.length = min 3 seeds.toFinset.card := by
  obtain ⟨arguments, next, rest, rfl, harguments, hends⟩ := (parseArguments_iff _ _ _).mp h
  cases hends with
  | done =>
      have hsettled := settled_foldlM harguments
      refine ⟨arguments, List.append_nil _, hsettled.listenPort (by decide), hsettled.controlPort (by decide), ?_⟩
      have hseeds : settings.seedNodes = arguments.filterMap Argument.seed := hsettled.seedNodes
      have hempty : (([] : List GossipPeer).map GossipPeer.address).Nodup := List.nodup_nil
      obtain ⟨hnodup, hmem⟩ := seedPeers_addresses settings.node settings.seedNodes hempty
      change ((seedPeers settings).map GossipPeer.address).Nodup at hnodup
      obtain ⟨order, hperm, hpicked⟩ := pickPeers_eq S (seedPeers settings)
      have haddresses := hperm.map GossipPeer.address
      have hsame : ((seedPeers settings).map GossipPeer.address).toFinset =
          ((arguments.filterMap Argument.seed).map (seedAddress settings.node)).toFinset := by
        ext address
        rw [List.mem_toFinset, List.mem_toFinset, seedPeers, hmem, ← hseeds]
        simp
      have hcard : order.length =
          ((arguments.filterMap Argument.seed).map (seedAddress settings.node)).toFinset.card := by
        rw [← hsame, List.toFinset_card_of_nodup hnodup, List.length_map, hperm.length_eq]
      rw [hpicked]
      refine ⟨?_, ?_, ?_⟩
      · exact (haddresses.nodup_iff.mpr hnodup).sublist ((List.take_sublist _ _).map _)
      · intro address hround
        have hpeer := haddresses.subset (((List.take_sublist _ _).map _).subset hround)
        exact List.mem_toFinset.mp (hsame ▸ List.mem_toFinset.mpr hpeer)
      · rw [List.length_map, List.length_take, hcard, gossipFanout]

def repeatedSeed : List Bytes :=
  [ascii "--seed-node", ascii "10.0.0.2:5000", ascii "--seed-node", ascii "10.0.0.3", ascii "--control-port",
    ascii "6000", ascii "--seed-node", ascii "10.0.0.2:5000 "]

def repeatedSettings : Settings :=
  { node := { controlPort := 6000 }, seedNodes := [ascii "10.0.0.2:5000", ascii "10.0.0.3", ascii "10.0.0.2:5000 "] }

theorem rounds_pick_seeds_repeatedSeed :
    ∃ arguments : List Argument, repeatedSeed = arguments.flatMap Argument.words ∧
      0 < repeatedSettings.node.listenPort ∧ 0 < repeatedSettings.node.controlPort ∧
      let seeds := (arguments.filterMap Argument.seed).map (seedAddress repeatedSettings.node)
      let round := (pickPeers ⟨id, fun _ => List.Perm.refl _⟩ (seedPeers repeatedSettings)).map GossipPeer.address
      round.Nodup ∧ round ⊆ seeds ∧ round.length = min 3 seeds.toFinset.card :=
  rounds_pick_seeds repeatedSeed repeatedSettings (by decide +kernel) ⟨id, fun _ => List.Perm.refl _⟩

end BeaconNode.EngineStart
