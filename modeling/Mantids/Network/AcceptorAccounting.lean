import Mantids.Network.Acceptor

/-! The counters of the acceptor agree with its list of threads in every interleaving, and
the list grows within the limits only. -/

set_option autoImplicit false

namespace Mantids.Network.MultiThreaded

open Library Memory

/-- The threads that serve an address. -/
def serving (threads : List SAThread) (ip : Bytes) : Nat := threads.countP (·.remotePair = ip)

/-- The counters are those of the list, none is kept at zero, and nothing has been thrown. -/
structure Accounted (s : MultiThreaded) : Prop where
  counted : ∀ ip, s.connectionsPerIP.get ip = if serving s.threadList ip = 0 then none else some (serving s.threadList ip)
  unthrown : s.thrown = false

/-- A step that puts a client into the list stays within both limits. -/
def InsertsWithin (s : MultiThreaded) (op : MultiThreadedOp) : Prop :=
  let t := s.step op
  ∀ client ∈ t.threadList, client ∉ s.threadList →
    t.threadList.length ≤ t.maxConcurrentClients ∧ serving t.threadList client.remotePair ≤ t.maxConnectionsPerIP

/-- Within both limits, for every address. -/
structure Within (s : MultiThreaded) : Prop where
  clients : s.threadList.length ≤ s.maxConcurrentClients
  perIP : ∀ ip, serving s.threadList ip ≤ s.maxConnectionsPerIP

/-- A client that comes or goes, or a call of `finalize`. -/
def KeepsLimits : MultiThreadedOp → Prop
  | .setMaxConnectionsPerIP _ | .setMaxConcurrentClients _ => False
  | _ => True

/-! ## The invariant -/

/-- With it, every object has one address and the list fits into 32 bits. -/
structure Inv (s : MultiThreaded) : Prop extends Accounted s where
  addresses : s.live.Nodup
  word : s.threadList.length < 2 ^ 32

section
variable {threads : List SAThread}

theorem serving_le (threads : List SAThread) (ip : Bytes) : serving threads ip ≤ threads.length := List.countP_le_length

theorem serving_append (threads : List SAThread) (client : SAThread) (ip : Bytes) :
    serving (threads ++ [client]) ip = serving threads ip + if client.remotePair = ip then 1 else 0 := by
  simp [serving, List.countP_append, List.countP_cons]

/-- The one thread with an address, and the others. -/
theorem serving_filter {x : SAThread} (addresses : (threads.map (·.address)).Nodup) (member : x ∈ threads) (ip : Bytes) :
    serving (threads.filter (·.address ≠ x.address)) ip + (if x.remotePair = ip then 1 else 0) = serving threads ip := by
  have one : threads.filter (fun thread => !decide (thread.address ≠ x.address)) = [x] := by
    induction threads with
    | nil => cases member
    | cons first rest ih =>
      rw [List.map_cons, List.nodup_cons] at addresses
      obtain ⟨fresh, addresses⟩ := addresses
      rcases List.mem_cons.mp member with rfl | later
      · have others : ∀ thread ∈ rest, thread.address ≠ x.address := by
          intro thread inside same
          exact fresh (same ▸ List.mem_map_of_mem inside)
        simpa using others
      · have different : first.address ≠ x.address := by
          intro same
          exact fresh (same ▸ List.mem_map_of_mem later)
        rw [List.filter_cons, if_neg (by simpa using different)]
        exact ih addresses later
  have both := List.countP_eq_countP_filter_add threads (fun thread => decide (thread.remotePair = ip))
    (fun thread => decide (thread.address ≠ x.address))
  rw [one, List.countP_singleton] at both
  unfold serving
  simpa using both.symm

end

/-- The counters for a list of threads. -/
def Counts (table : Table Bytes Nat) (threads : List SAThread) : Prop :=
  ∀ ip, table.get ip = if serving threads ip = 0 then none else some (serving threads ip)

theorem incrementIPUsage_counts {table : Table Bytes Nat} {threads : List SAThread} (counts : Counts table threads)
    (client : SAThread) (word : threads.length < 2 ^ 32 - 1) :
    (incrementIPUsage table client.remotePair).1 = serving (threads ++ [client]) client.remotePair ∧
      Counts (incrementIPUsage table client.remotePair).2 (threads ++ [client]) := by
  have bound := serving_le threads client.remotePair
  have used := counts client.remotePair
  have more := serving_append threads client
  unfold incrementIPUsage
  split at used
  · rename_i none
    rw [used]
    refine ⟨by simp [more, none], fun ip => ?_⟩
    rw [get_insert, counts, more]
    by_cases same : ip = client.remotePair
    · simp [same, none]
    · simp [same, Ne.symm same]
  · rename_i some
    rw [used]
    dsimp only
    rw [if_pos (by omega)]
    refine ⟨by simp [more], fun ip => ?_⟩
    dsimp only
    rw [get_insert, counts, more]
    by_cases same : ip = client.remotePair
    · simp [same]
    · simp [same, Ne.symm same]

theorem decrementIPUsage_counts {table : Table Bytes Nat} {threads rest : List SAThread} {ip : Bytes}
    (counts : Counts table threads)
    (less : ∀ other, serving rest other + (if ip = other then 1 else 0) = serving threads other)
    (word : threads.length < 2 ^ 32) :
    ∃ table', decrementIPUsage table ip = some table' ∧ Counts table' rest := by
  have bound := serving_le threads ip
  have one := less ip
  rw [if_pos rfl] at one
  have used := counts ip
  rw [if_neg (by omega)] at used
  unfold decrementIPUsage
  rw [used]
  by_cases last : serving threads ip = 1
  · rw [last]
    refine ⟨_, rfl, fun other => ?_⟩
    have left := less other
    rw [get_erase, counts]
    by_cases same : other = ip
    · rw [same] at left ⊢
      simp at left ⊢
      omega
    · rw [if_neg (Ne.symm same), Nat.add_zero] at left
      rw [if_neg same, left]
  · have value : (serving threads ip + (2 ^ 32 - 1)) % 2 ^ 32 = serving rest ip := by omega
    refine ⟨table.insert ip (serving rest ip), ?_, fun other => ?_⟩
    · split
      · rename_i impossible
        cases impossible
      · rename_i single
        exact absurd (Option.some.inj single) last
      · rename_i used' _ same
        rw [← Option.some.inj same, value]
    · have left := less other
      rw [get_insert, counts]
      by_cases same : other = ip
      · rw [same, if_pos rfl, if_neg (by omega)]
      · rw [if_neg (Ne.symm same), Nat.add_zero] at left
        rw [if_neg same, left]

/-! ## One step -/

theorem inv_new (maxConnectionsPerIP maxConcurrentClients : Fin (2 ^ 32)) :
    Inv (new maxConnectionsPerIP maxConcurrentClients) where
  counted := fun _ => rfl
  unthrown := rfl
  addresses := List.nodup_nil
  word := by
    change 0 < 2 ^ 32
    decide

/-- A refused client leaves the state as it was, but for the order of its table; otherwise the
client is in the list, within both limits. -/
theorem introduce_cases {s : MultiThreaded} (inv : s.Inv) {client : SAThread}
    (room : s.finalized = false → s.threadList.length < s.maxConcurrentClients) :
    (∃ table, Counts table s.threadList ∧ s.introduce client = { s with connectionsPerIP := table }) ∨
      ∃ table, Counts table (s.threadList ++ [client]) ∧
        s.introduce client = { s with connectionsPerIP := table, threadList := s.threadList ++ [client] } ∧
        (s.threadList ++ [client]).length ≤ s.maxConcurrentClients ∧
        serving (s.threadList ++ [client]) client.remotePair ≤ s.maxConnectionsPerIP := by
  unfold introduce
  split
  · exact .inl ⟨s.connectionsPerIP, inv.counted, rfl⟩
  · rename_i open_
    have room := room (Bool.eq_false_iff.mpr open_)
    have limit := s.maxConcurrentClients.isLt
    obtain ⟨used, counts⟩ := incrementIPUsage_counts (fun ip => inv.counted ip) client (by omega)
    dsimp only
    split
    · rename_i many
      have less : ∀ other, serving s.threadList other + (if client.remotePair = other then 1 else 0) =
          serving (s.threadList ++ [client]) other := fun other => (serving_append _ client other).symm
      obtain ⟨table, decremented, counts'⟩ := decrementIPUsage_counts counts less
        (by rw [List.length_append, List.length_singleton]; omega)
      refine .inl ⟨table, counts', ?_⟩
      rw [MultiThreaded.decremented, decremented]
    · rename_i few
      rw [used] at few
      refine .inr ⟨_, counts, rfl, ?_, Nat.not_lt.mp few⟩
      rw [List.length_append, List.length_singleton]
      omega

/-- What a step of a client's own comes to: it keeps the list, or puts a client in. -/
structure Steps (s t : MultiThreaded) : Prop where
  inv : t.Inv
  limits : t.maxConnectionsPerIP = s.maxConnectionsPerIP ∧ t.maxConcurrentClients = s.maxConcurrentClients
  inserted : t.threadList ⊆ s.threadList ∧ t.threadList.length ≤ s.threadList.length ∧
      (∀ ip, serving t.threadList ip ≤ serving s.threadList ip) ∨
    ∃ client, t.threadList = s.threadList ++ [client] ∧ t.threadList.length ≤ t.maxConcurrentClients ∧
      serving t.threadList client.remotePair ≤ t.maxConnectionsPerIP

theorem Steps.refl {s : MultiThreaded} (inv : s.Inv) : Steps s s :=
  ⟨inv, ⟨rfl, rfl⟩, .inl ⟨List.Subset.refl _, Nat.le_refl _, fun _ => Nat.le_refl _⟩⟩

theorem addresses_middle {threads waiting : List SAThread} {client : SAThread}
    (addresses : ((threads ++ waiting).map (·.address)).Nodup)
    (fresh : client.address ∉ (threads ++ waiting).map (·.address)) :
    ((threads ++ client :: waiting).map (·.address)).Nodup := by
  have both := List.nodup_cons.mpr ⟨fresh, addresses⟩
  rw [← List.map_cons] at both
  exact (List.perm_middle.map _).nodup_iff.mpr both

theorem steps_processClient {s : MultiThreaded} (inv : s.Inv) {client : SAThread} (fresh : client.address ∉ s.live) :
    Steps s (s.processClient client) := by
  unfold processClient
  split
  · refine ⟨⟨⟨inv.counted, inv.unthrown⟩, ?_, inv.word⟩, ⟨rfl, rfl⟩,
      .inl ⟨List.Subset.refl _, Nat.le_refl _, fun _ => Nat.le_refl _⟩⟩
    exact addresses_middle inv.addresses fresh
  · rename_i go
    have room : s.finalized = false → s.threadList.length < s.maxConcurrentClients := by
      intro open_
      by_contra full
      exact go ⟨Nat.not_lt.mp full, by simp [open_]⟩
    obtain ⟨table, counts, same⟩ | ⟨table, counts, same, clients, perIP⟩ := introduce_cases inv room
    · rw [same]
      exact ⟨⟨⟨counts, inv.unthrown⟩, inv.addresses, inv.word⟩, ⟨rfl, rfl⟩,
        .inl ⟨List.Subset.refl _, Nat.le_refl _, fun _ => Nat.le_refl _⟩⟩
    · rw [same]
      refine ⟨⟨⟨counts, inv.unthrown⟩, ?_, Nat.lt_of_le_of_lt clients s.maxConcurrentClients.isLt⟩, ⟨rfl, rfl⟩,
        .inr ⟨client, rfl, clients, perIP⟩⟩
      have middle := addresses_middle inv.addresses fresh
      rwa [List.append_cons] at middle

theorem steps_finalizeThreadElement {s : MultiThreaded} (inv : s.Inv) (address : Nat) :
    Steps s (s.finalizeThreadElement address) := by
  unfold finalizeThreadElement
  split
  · exact Steps.refl inv
  · rename_i x found
    have member := List.mem_of_find?_eq_some found
    have same : x.address = address := by simpa using List.find?_some found
    have addresses := inv.addresses
    rw [live, List.map_append] at addresses
    have less := serving_filter addresses.of_append_left member
    rw [same] at less
    obtain ⟨table, decremented, counts⟩ := decrementIPUsage_counts (fun ip => inv.counted ip) less inv.word
    have fewer : (s.threadList.filter (·.address ≠ address)).length ≤ s.threadList.length := List.length_filter_le _ _
    simp only [MultiThreaded.decremented, decremented]
    refine ⟨⟨⟨counts, inv.unthrown⟩, ?_, Nat.lt_of_le_of_lt fewer inv.word⟩, ⟨rfl, rfl⟩, .inl ⟨?_, fewer, ?_⟩⟩
    · exact List.Nodup.sublist ((List.filter_sublist.append (List.Sublist.refl _)).map _) inv.addresses
    · exact List.filter_sublist.subset
    · intro ip
      have one := less ip
      dsimp only at one ⊢
      omega

theorem steps_wakes {s : MultiThreaded} (inv : s.Inv) (address : Nat) (timeout : Bool) :
    Steps s (s.wakes address timeout) := by
  unfold wakes
  split
  · exact Steps.refl inv
  · rename_i client found
    have member := List.mem_of_find?_eq_some found
    have same : client.address = address := by simpa using List.find?_some found
    have addresses : ((s.threadList ++ s.waiting.filter (·.address ≠ address)).map (·.address)).Nodup := by
      exact List.Nodup.sublist (((List.Sublist.refl _).append List.filter_sublist).map _) inv.addresses
    have inv' : Inv { s with waiting := s.waiting.filter (·.address ≠ address) } :=
      ⟨⟨inv.counted, inv.unthrown⟩, addresses, inv.word⟩
    dsimp only
    split
    · exact ⟨inv', ⟨rfl, rfl⟩, .inl ⟨List.Subset.refl _, Nat.le_refl _, fun _ => Nat.le_refl _⟩⟩
    · have fresh : client.address ∉ live { s with waiting := s.waiting.filter (·.address ≠ address) } := by
        have disjoint := inv.addresses
        rw [live, List.map_append, List.nodup_append] at disjoint
        rw [live, List.map_append, List.mem_append, not_or]
        constructor
        · intro inside
          exact disjoint.2.2 _ inside _ (List.mem_map_of_mem member) rfl
        · simp [same]
      have steps := steps_processClient inv' fresh
      exact ⟨steps.inv, steps.limits, steps.inserted⟩

theorem Steps.inserts {s t : MultiThreaded} (steps : Steps s t) : ∀ client ∈ t.threadList, client ∉ s.threadList →
    t.threadList.length ≤ t.maxConcurrentClients ∧ serving t.threadList client.remotePair ≤ t.maxConnectionsPerIP := by
  intro client inside new
  rcases steps.inserted with ⟨kept, -⟩ | ⟨added, list, clients, perIP⟩
  · exact absurd (kept inside) new
  · rw [list, List.mem_append, List.mem_singleton] at inside
    obtain rfl := inside.resolve_left new
    exact ⟨clients, perIP⟩

theorem Steps.within {s t : MultiThreaded} (steps : Steps s t) (within : s.Within) : Within t := by
  obtain ⟨perIPLimit, clientsLimit⟩ := steps.limits
  rcases steps.inserted with ⟨-, fewer, less⟩ | ⟨added, list, clients, perIP⟩
  · constructor
    · rw [clientsLimit]
      exact Nat.le_trans fewer within.clients
    · intro ip
      rw [perIPLimit]
      exact Nat.le_trans (less ip) (within.perIP ip)
  · refine ⟨clients, fun ip => ?_⟩
    by_cases same : added.remotePair = ip
    · rw [← same]
      exact perIP
    · rw [list, serving_append, if_neg same, Nat.add_zero, perIPLimit]
      exact within.perIP ip

/-- Each step keeps the invariant and inserts within the limits, and all is within them while they stay. -/
structure Keeps (s : MultiThreaded) (op : MultiThreadedOp) : Prop where
  inv : Inv (s.step op)
  inserts : s.InsertsWithin op
  within : KeepsLimits op → s.Within → Within (s.step op)

theorem keeps_step {s : MultiThreaded} (inv : s.Inv) (op : MultiThreadedOp) : s.Keeps op := by
  have own : Steps s (s.step op) → s.Keeps op :=
    fun steps => ⟨steps.inv, steps.inserts, fun _ => steps.within⟩
  cases op with
  | processClient client =>
    apply own
    rw [step]
    split
    · exact Steps.refl inv
    · rename_i fresh
      exact steps_processClient inv fresh
  | wakes address timeout => exact own (steps_wakes inv address timeout)
  | finalizeThreadElement address => exact own (steps_finalizeThreadElement inv address)
  | setMaxConnectionsPerIP value =>
    exact ⟨⟨⟨inv.counted, inv.unthrown⟩, inv.addresses, inv.word⟩, fun _ inside new => absurd inside new, nofun⟩
  | setMaxConcurrentClients value =>
    exact ⟨⟨⟨inv.counted, inv.unthrown⟩, inv.addresses, inv.word⟩, fun _ inside new => absurd inside new, nofun⟩
  | finalize =>
    exact ⟨⟨⟨inv.counted, inv.unthrown⟩, inv.addresses, inv.word⟩, fun _ inside new => absurd inside new,
      fun _ within => ⟨within.clients, within.perIP⟩⟩

/-! ## Every interleaving -/

/-- With limits that stay the list is within them; with others it is when a client is put in. -/
theorem accounted (maxConnectionsPerIP maxConcurrentClients : Fin (2 ^ 32)) (run : List MultiThreadedOp) :
    (∀ s ∈ visited step (new maxConnectionsPerIP maxConcurrentClients) run, Accounted s) ∧
      Along step InsertsWithin (new maxConnectionsPerIP maxConcurrentClients) run ∧
      ((∀ op ∈ run, KeepsLimits op) →
        ∀ s ∈ visited step (new maxConnectionsPerIP maxConcurrentClients) run, Within s) := by
  have start := inv_new maxConnectionsPerIP maxConcurrentClients
  have free : Along step (fun _ _ => True) (new maxConnectionsPerIP maxConcurrentClients) run :=
    along_of_forall run (fun _ _ _ => trivial) _
  refine ⟨?_, ?_, fun kept => ?_⟩
  · intro s member
    exact (along_visited Inv (fun _ op inv _ => (keeps_step inv op).inv) _ run start free s member).toAccounted
  · exact along_good Inv (fun _ op inv _ => ⟨(keeps_step inv op).inv, (keeps_step inv op).inserts⟩) start free
  · have limits : Along step (fun _ op => KeepsLimits op) (new maxConnectionsPerIP maxConcurrentClients) run :=
      along_of_forall run (fun op member _ => kept op member) _
    have both := along_visited (fun s => Inv s ∧ Within s)
      (fun _ op held keeps => ⟨(keeps_step held.1 op).inv, (keeps_step held.1 op).within keeps held.2⟩) _ run
      ⟨start, Nat.zero_le _, fun _ => Nat.zero_le _⟩ limits
    exact fun s member => (both s member).2

end Mantids.Network.MultiThreaded
