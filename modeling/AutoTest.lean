import AutoTest.OutputMachines
import AutoTest.WriteOnceCells
import AutoTest.InterfaceMachine
import AutoTest.InterfaceSteps
import AutoTest.EventAttribution
import AutoTest.WriteTarget
import AutoTest.SharedMachines
import AutoTest.WorkerLifecycle
import AutoTest.DescriptorOwnership
import AutoTest.ProcessDescriptors
import AutoTest.ReceivedBytes
import AutoTest.SentStream
import AutoTest.LifecycleFlag
import AutoTest.ConcurrentStarts
import AutoTest.SetupAtomicity
import AutoTest.ReleaseLedgers
import AutoTest.ResourceAccounts
import AutoTest.ResourceConservation
import AutoTest.TeardownMachine
import AutoTest.UseAfterFree
import AutoTest.LocalAddress
import AutoTest.LifetimeMachine
import AutoTest.EndpointAttempts
import AutoTest.EndpointFidelity
import AutoTest.ByteBlocks
import AutoTest.NetlinkMessages
import AutoTest.InterfaceEntries
import AutoTest.NetlinkResponses
import AutoTest.EntryMemory
import AutoTest.LinkEntries
import AutoTest.AddressEntries
import AutoTest.InterfaceLists
import AutoTest.RunAccounts
import AutoTest.ReceivedAnswers
import AutoTest.InterfaceRuns
import AutoTest.InterfaceResults
import AutoTest.AddressResults
import AutoTest.EncodedDumps
import AutoTest.DumpedAddresses
