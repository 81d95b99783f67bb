import BubbleOs.Proof.Mem.Heap
import BubbleOs.Proof.Process.FileTable
import BubbleOs.Proof.Process.UserMemory
import BubbleOs.Proof.Scheduling.Resume
import BubbleOs.Proof.Elf.Loader
import BubbleOs.Proof.Fat.Faults
import BubbleOs.Proof.Fat.ListingFaults
import BubbleOs.Proof.Ahci.Command
import BubbleOs.Proof.Mem.Stack
import BubbleOs.Proof.Elf.Load
import BubbleOs.Proof.Mem.Identity
import BubbleOs.Proof.Edit.Save
import BubbleOs.Proof.Pci.Bar
import BubbleOs.Proof.Process.ReadDir
import BubbleOs.Proof.Shell.Main
import BubbleOs.Proof.Time.Rtc
import BubbleOs.Proof.Net.E1000
import BubbleOs.Proof.Process.Execute
