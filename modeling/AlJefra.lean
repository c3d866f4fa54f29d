import AlJefra.Ai.MarketplaceTheorems
import AlJefra.Arch.Aarch64MmuTheorems
import AlJefra.Arch.PageAllocTheorems
import AlJefra.Arch.Riscv64MmuTheorems
import AlJefra.Bus.AcpiLiteTheorems
import AlJefra.Bus.DtFindTheorems
import AlJefra.Bus.DtTermTheorems
import AlJefra.CLib.Memmove
import AlJefra.Evolution.Crossover
import AlJefra.Gui.Buttons
import AlJefra.Gui.ChatView
import AlJefra.Gui.ClipTheorems
import AlJefra.Input.Touch
import AlJefra.Input.XhciTheorems
import AlJefra.Kernel.AiBootstrap
import AlJefra.Kernel.AiBridge
import AlJefra.Kernel.AiChatTheorems
import AlJefra.Kernel.BootstrapDrivers
import AlJefra.Kernel.DriverLoaderTheorems
import AlJefra.Kernel.FsHandleTheorems
import AlJefra.Kernel.KlogTheorems
import AlJefra.Kernel.MemprotectTheorems
import AlJefra.Kernel.OtaCrashTheorems
import AlJefra.Kernel.OtaDownloadTheorems
import AlJefra.Kernel.OtaImageTheorems
import AlJefra.Kernel.SchedTheorems
import AlJefra.Kernel.Shell
import AlJefra.Kernel.WifiConfTheorems
import AlJefra.Net.DhcpDiscoverTheorems
import AlJefra.Net.Dns
import AlJefra.Net.TcpConnectTheorems
import AlJefra.Net.TcpSend
import AlJefra.Network.NetRxTheorems
import AlJefra.Network.Sha1Theorems
import AlJefra.Network.VirtioNetTheorems
import AlJefra.Network.WifiNonceTheorems
import AlJefra.Server.AjdrvBuilderTheorems
import AlJefra.Server.DriverStoreTheorems
import AlJefra.Storage.DriverOpsTheorems
import AlJefra.Storage.NvmeQueueTheorems
import AlJefra.Storage.VirtioBlkQueueTheorems
import AlJefra.Store.GeScalarmult
import AlJefra.Store.GeTheorems
import AlJefra.Store.Sha512Theorems
import AlJefra.Tools.SignKernelTheorems
